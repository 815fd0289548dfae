import FairBridge.Guarantees.DailyCap
import FairBridge.Model.Frame
import Mathlib.Logic.Relation

/-!
What happens to a deposit once it is CONFIRMED. The watcher's update of an intent that it
refuses does not ask for the status of the row, and neither do the signer's updates after a
receipt; all the others leave a credited row to its signer, and its status to its course.
-/

namespace FairBridge
open Store Async Async.Rules

/-- Watchers and signers, any number of each. Any request may raise, and any run may die. -/
def creditRuns {ι : Type} (signs : ι → Bool) : Faults ι where
  ready _ i t := match t with
    | .processBlock _ _ => !signs i
    | .signMint _ _ => signs i
    | _ => false
  may _ _ _ _ := true
  mayKill _ _ _ := true
  row _ := none

/-- One move of the mint signer. -/
inductive DepositStatus.Mints : DepositStatus → DepositStatus → Prop where
  | claim : Mints .confirmed .minting
  | settle : Mints .minting .minted
  | revert : Mints .minting .failed

/-- The two rows are for the same vout and the same amounts. -/
structure DepositDoc.Same (d d' : DepositDoc) : Prop where
  txid : d'.fairTxid = d.fairTxid
  vout : d'.fairVout = d.fairVout
  sats : d'.amountSats = d.amountSats
  wei : d'.amountWei = d.amountWei

/-- A signer has claimed the row. -/
def DepositDoc.claimed (d : DepositDoc) : Bool :=
  d.status == .minting || d.status == .minted || d.status == .failed

/-- An update that the index lets pass and that does not fit the row: it brings a vout, or
a settlement other than the row's own. -/
def Op.overwritesCredit (id : ObjectId) {β : Type} (op : Op β) (w : World) : Bool :=
  match op with
  | .deposit (.updateOne filter u) =>
      (w.deposits.update refusals.duplicate filter none u).1.isOk &&
        (w.deposits.get id).any fun d => filter d && (u.fairTxid.isSome ||
          d.status == .failed && u.status == some .minted ||
          d.status == .minted && u.status == some .failed)
  | _ => false

/-- No update of the kind is performed. -/
def sparesCredit {ι : Type} (id : ObjectId) {β : Type} (p : Pool Op JsError World ι) (_ : ι)
    (op : Op β) : Prop :=
  op.overwritesCredit id p.world = false

instance {ι : Type} (id : ObjectId) {β : Type} (p : Pool Op JsError World ι) (i : ι)
    (op : Op β) : Decidable (sparesCredit id p i op) :=
  inferInstanceAs (Decidable (_ = false))

/-- The unique index of the deposits holds of every vout. -/
def World.OneRowPerVout (w : World) : Prop :=
  ∀ txid n, w.deposits.UniqueAt (some txid, some n)

def World.Claimed (w : World) (id : ObjectId) : Prop :=
  ∃ d, w.deposits.get id = some d ∧ d.claimed = true

/-- No claim is undone. -/
def ClaimsStay (w w' : World) : Prop := ∀ id, w.Claimed id → w'.Claimed id

/-- What one step does to the row once it is credited: nothing, or a signer moves it on. -/
def CreditStep (id : ObjectId) (signer : Bool) (w w' : World) : Prop :=
  ∀ d, w.deposits.get id = some d → d.isOpen = false →
    ∃ d', w'.deposits.get id = some d' ∧ (d' = d ∨
      signer = true ∧ d.Same d' ∧ (d'.status = d.status ∨ d.status.Mints d'.status))

/-- What a run does to the row once it is credited. -/
def CreditKept (id : ObjectId) (w w' : World) : Prop :=
  ∀ d, w.deposits.get id = some d → d.isOpen = false →
    ∃ d', w'.deposits.get id = some d' ∧ d.Same d' ∧
      Relation.ReflTransGen DepositStatus.Mints d.status d'.status

variable {id : ObjectId} {w w' : World}

theorem DepositDoc.Same.refl (d : DepositDoc) : d.Same d := ⟨rfl, rfl, rfl, rfl⟩

theorem DepositDoc.Same.trans {d d' d'' : DepositDoc} (h : d.Same d') (h' : d'.Same d'') :
    d.Same d'' :=
  ⟨h'.txid.trans h.txid, h'.vout.trans h.vout, h'.sats.trans h.sats, h'.wei.trans h.wei⟩

/-- A signer's update leaves the vout and the amounts alone. -/
theorem DepositSet.OfSigner.same {u : DepositSet} (h : u.OfSigner) (d : DepositDoc) :
    d.Same (u.apply d) := by
  constructor <;> simp [DepositSet.apply, h.txid, h.vout, h.sats, h.wei]

/-- The moves of a signer end in statuses that are not an intent's. -/
theorem DepositStatus.mints_closed {d d' : DepositDoc} (hd : d.isOpen = false)
    (h : Relation.ReflTransGen DepositStatus.Mints d.status d'.status) : d'.isOpen = false := by
  cases h.cases_tail with
  | inl hsame => simpa only [DepositDoc.isOpen, hsame] using hd
  | inr hmove =>
      obtain ⟨st, _, hlast⟩ := hmove
      cases hst : d'.status <;> rw [hst] at hlast <;> cases hlast <;>
        simp [DepositDoc.isOpen, hst]

theorem CreditStep.kept {signer : Bool} (h : CreditStep id signer w w') :
    CreditKept id w w' := by
  intro d hd hclosed
  obtain ⟨d', hd', rfl | ⟨_, hsame, hst⟩⟩ := h d hd hclosed
  · exact ⟨d', hd', .refl d', .refl⟩
  · cases hst with
    | inl hst => exact ⟨d', hd', hsame, hst ▸ .refl⟩
    | inr hst => exact ⟨d', hd', hsame, .single hst⟩

theorem CreditKept.refl (w : World) : CreditKept id w w :=
  fun d hd _ => ⟨d, hd, .refl d, .refl⟩

theorem CreditKept.trans {w₁ w₂ w₃ : World} (h : CreditKept id w₁ w₂)
    (h' : CreditKept id w₂ w₃) : CreditKept id w₁ w₃ := by
  intro d hd hclosed
  obtain ⟨d', hd', hsame, hst⟩ := h d hd hclosed
  obtain ⟨d'', hd'', hsame', hst'⟩ := h' d' hd' (DepositStatus.mints_closed hclosed hst)
  exact ⟨d'', hd'', hsame.trans hsame', hst.trans hst'⟩

/-- The three things that every step keeps. -/
structure CreditSafe (id : ObjectId) (signer : Bool) (watched : Prop) (w w' : World) :
    Prop where
  index : w.OneRowPerVout → w'.OneRowPerVout
  claims : ClaimsStay w w'
  credit : watched → CreditStep id signer w w'

theorem CreditSafe.of_same {signer : Bool} {watched : Prop} (h : w'.deposits = w.deposits) :
    CreditSafe id signer watched w w' where
  index hw := by simpa only [World.OneRowPerVout, h] using hw
  claims := fun _ hc => by simpa only [World.Claimed, h] using hc
  credit _ d hd _ := ⟨d, h ▸ hd, Or.inl rfl⟩

/-- Rows are only added. -/
theorem CreditSafe.of_kept {signer : Bool} {watched : Prop}
    (hindex : w.OneRowPerVout → w'.OneRowPerVout)
    (h : ∀ id d, w.deposits.get id = some d → w'.deposits.get id = some d) :
    CreditSafe id signer watched w w' where
  index := hindex
  claims := fun i hc => by
    obtain ⟨d, hd, hclaimed⟩ := hc
    exact ⟨d, h i d hd, hclaimed⟩
  credit _ d hd _ := ⟨d, h id d hd, Or.inl rfl⟩

/-- An update that keeps claims, and that either does not reach the row or moves it on. -/
theorem CreditSafe.update {signer : Bool} {watched : Prop} {filter : DepositDoc → Bool}
    {sort : Option (DepositDoc → Nat)} {u : DepositSet}
    (hclaims : ∀ d : DepositDoc, filter d = true → d.claimed = true →
      (u.apply d).claimed = true)
    (hcredit : watched → ∀ d, w.deposits.get id = some d → d.isOpen = false → filter d = true →
      (w.deposits.update refusals.duplicate filter sort u).1.isOk = true →
      signer = true ∧ d.Same (u.apply d) ∧
        ((u.apply d).status = d.status ∨ d.status.Mints (u.apply d).status)) :
    CreditSafe id signer watched w
      { w with deposits := (w.deposits.update refusals.duplicate filter sort u).2 } := by
  have hindex : w.OneRowPerVout → World.OneRowPerVout
      { w with deposits := (w.deposits.update refusals.duplicate filter sort u).2 } :=
    fun h txid n => Query.run_unique refusals w.now (.findOneAndUpdate filter sort u) (h txid n)
  obtain ⟨_, hc⟩ | ⟨_, _, _, _, _, hc⟩ | ⟨d, hd, hfilter, _, _, hc⟩ :=
    w.deposits.update_cases refusals.duplicate filter sort u
  · exact .of_same (by rw [hc])
  · exact .of_same (by rw [hc])
  · have hd : w.deposits.get d.id = some d := hd
    have hrow : ∀ i e, w.deposits.get i = some e →
        (w.deposits.update refusals.duplicate filter sort u).2.get i =
          if i = d.id then some (u.apply d) else some e := by
      intro i e he
      rw [hc, Collection.get_modify]
      split
      · rename_i hi
        exact (congrArg (Option.map (depositSchema.set u)) hd).trans (if_pos hi).symm
      · rename_i hi
        rw [he]
        exact (if_neg hi).symm
    refine ⟨hindex, ?_, ?_⟩
    · intro i hi
      obtain ⟨e, he, hclaimed⟩ := hi
      refine ⟨_, (hrow i e he).trans (apply_ite some _ _ _).symm, ?_⟩
      split
      · rename_i hid
        obtain rfl : e = d := Option.some.inj (he.symm.trans (hid ▸ hd))
        exact hclaims e hfilter hclaimed
      · exact hclaimed
    · intro hwatched e he hclosed
      refine ⟨_, (hrow id e he).trans (apply_ite some _ _ _).symm, ?_⟩
      split
      · rename_i hid
        obtain rfl : e = d := Option.some.inj (he.symm.trans (hid ▸ hd))
        exact Or.inr (hcredit hwatched e he hclosed hfilter (by rw [hc]; rfl))
      · exact Or.inl rfl

/-- A request that writes no deposit is as good as none. -/
theorem CreditSafe.of_beside {β : Type} {op : Op β} {row : Option ObjectId} {out : Outcome}
    {r : Except JsError β} {signer : Bool} {watched : Prop} (hop : op.part ≠ .deposits)
    (h : answer row op out w = some (r, w')) : CreditSafe id signer watched w w' :=
  .of_same ((answer_frame h).deposits hop)

/-- The requests of a watcher: it updates intents only, but for the ones that it refuses. -/
def Op.scansVout {β : Type} : Op β → Prop
  | .deposit (.findOneAndUpdate filter _ _) => ∀ d : DepositDoc, filter d = true → d.isOpen = true
  | .deposit (.updateOne _ u) => u.fairTxid.isSome = true ∧ u.status = some .failed
  | _ => True

theorem DepositDoc.claimed_closed {d : DepositDoc} (h : d.claimed = true) : d.isOpen = false := by
  cases hst : d.status <;> simp_all [DepositDoc.claimed, DepositDoc.isOpen]

theorem CreditSafe.of_scan {β : Type} {op : Op β} {row : Option ObjectId} {out : Outcome}
    {r : Except JsError β} {signer : Bool} {watched : Prop} (hop : op.scansVout)
    (hspares : watched → op.overwritesCredit id w = false)
    (h : answer row op out w = some (r, w')) : CreditSafe id signer watched w w' := by
  by_cases hpart : op.part = .deposits
  · cases op with
    | deposit q =>
        obtain ⟨_, _, _, rfl⟩ | ⟨x, hx, _⟩ := answer_cases h
        · exact .of_same rfl
        · cases hx
          cases q with
          | findOne _ _ => exact .of_same rfl
          | find _ limit => cases limit <;> exact .of_same rfl
          | create d =>
              refine .of_kept (fun hw txid n => Query.run_unique refusals w.now (.create d)
                (hw txid n)) ?_
              intro i e he
              obtain ⟨_, hc, _⟩ | ⟨_, _, hc⟩ := w.deposits.create_cases refusals w.now d
              · simp only [recordCall, Query.run, hc, he]
              · simp only [recordCall, Query.run, hc, Collection.get_insert]
                rw [if_neg (Nat.ne_of_lt (Collection.get_lt he)), he]
          | findOneAndUpdate filter sort u =>
              refine .update ?_ ?_
              · intro d hfilter hclaimed
                have hclosed := DepositDoc.claimed_closed hclaimed
                rw [hop d hfilter] at hclosed
                cases hclosed
              · intro _ d _ hclosed hfilter _
                rw [hop d hfilter] at hclosed
                cases hclosed
          | updateOne filter u =>
              refine .update ?_ ?_
              · intro d _ _
                simp [DepositDoc.claimed, DepositSet.apply, hop.2]
              · intro hwatched d hd _ hfilter hpass
                have hspares := hspares hwatched
                simp only [Op.overwritesCredit] at hspares
                rw [hpass, hd] at hspares
                simp [hfilter, hop.1] at hspares
    | _ => cases hpart
  · exact .of_beside hpart h

/-- The requests of a signer that has claimed the row with the given identifier. -/
def Op.signsClaimed (job : ObjectId) {β : Type} : Op β → Prop
  | .deposit (.updateOne filter u) =>
      (∀ d : DepositDoc, filter d = true → d.id = job) ∧ u.OfSigner ∧ u.status ≠ some .minting
  | .deposit (.findOneAndUpdate _ _ _) | .deposit (.create _) => False
  | _ => True

/-- What a claimed row moves on to, if the update does not undo a settlement. -/
theorem DepositSet.OfSigner.moves {u : DepositSet} {d : DepositDoc} (hu : u.OfSigner)
    (hmint : u.status ≠ some .minting) (hclaimed : d.claimed = true)
    (hspares : (d.status == .failed && u.status == some .minted ||
      d.status == .minted && u.status == some .failed) = false) :
    (u.apply d).status = d.status ∨ d.status.Mints (u.apply d).status := by
  cases hset : u.status with
  | none => exact Or.inl (by simp [DepositSet.apply, hset])
  | some st =>
      have hst : (u.apply d).status = st := by simp [DepositSet.apply, hset]
      rw [hst]
      rw [hset] at hspares hmint
      obtain rfl | rfl | rfl := hu.status st hset
      · exact absurd rfl hmint
      · cases hd : d.status <;> simp_all [DepositDoc.claimed]
        exact .settle
      · cases hd : d.status <;> simp_all [DepositDoc.claimed]
        exact .revert

theorem DepositSet.OfSigner.claimed {u : DepositSet} {d : DepositDoc} (hu : u.OfSigner)
    (hclaimed : d.claimed = true) : (u.apply d).claimed = true := by
  cases hset : u.status with
  | none => simpa [DepositDoc.claimed, DepositSet.apply, hset] using hclaimed
  | some st =>
      obtain rfl | rfl | rfl := hu.status st hset <;>
        simp [DepositDoc.claimed, DepositSet.apply, hset]

theorem CreditSafe.of_sign {β : Type} {op : Op β} {row : Option ObjectId} {out : Outcome}
    {r : Except JsError β} {watched : Prop} {job : ObjectId} (hop : op.signsClaimed job)
    (hjob : w.Claimed job) (hspares : watched → op.overwritesCredit id w = false)
    (h : answer row op out w = some (r, w')) : CreditSafe id true watched w w' := by
  by_cases hpart : op.part = .deposits
  · cases op with
    | deposit q =>
        obtain ⟨_, _, _, rfl⟩ | ⟨x, hx, _⟩ := answer_cases h
        · exact .of_same rfl
        · cases hx
          cases q with
          | findOne _ _ => exact .of_same rfl
          | find _ limit => cases limit <;> exact .of_same rfl
          | create _ | findOneAndUpdate _ _ _ => cases hop
          | updateOne filter u =>
              obtain ⟨hid, hu, hmint⟩ := hop
              refine .update (fun d _ hclaimed => hu.claimed hclaimed) ?_
              intro hwatched d hd _ hfilter hpass
              obtain ⟨e, he, hclaimed⟩ := hjob
              have hdid : d.id = id := Collection.get_id hd
              rw [← hid d hfilter, hdid, hd] at he
              cases he
              have hspares := hspares hwatched
              simp only [Op.overwritesCredit] at hspares
              rw [hpass, hd] at hspares
              simp only [Bool.true_and, Option.any_some, hfilter, hu.txid, Option.isSome_none,
                Bool.false_or] at hspares
              exact ⟨rfl, hu.same d, hu.moves hmint hclaimed hspares⟩
    | _ => cases hpart
  · exact .of_beside hpart h

/-- The claim takes a row from CONFIRMED to MINTING or leaves it there. -/
theorem CreditSafe.of_claim {row : Option ObjectId} {out : Outcome} {job : ObjectId}
    {r : Except JsError (Option DepositDoc)} {watched : Prop}
    (h : answer row (.deposit (.findOneAndUpdate (fun d => d.id == job && claimable d) none
      { status := some .minting })) out w = some (r, w')) :
    CreditSafe id true watched w w' := by
  obtain ⟨_, _, _, rfl⟩ | ⟨x, hx, _⟩ := answer_cases h
  · exact .of_same rfl
  · cases hx
    refine .update ?_ ?_
    · intro d _ _
      rfl
    · intro _ d _ _ hfilter _
      refine ⟨rfl, ⟨rfl, rfl, rfl, rfl⟩, ?_⟩
      simp only [claimable, Bool.and_eq_true, Bool.or_eq_true, beq_iff_eq] at hfilter
      cases hfilter.2.1.1 with
      | inl hst =>
          rw [hst]
          exact Or.inr .claim
      | inr hst => exact Or.inl hst.symm

section Requests
variable {cfg : Config}

theorem persistTerminalDeposit_scans (v : ScannedVout) (m : MatchedDeposit)
    (origin : DepositDoc) : (persistTerminalDeposit v m origin).Only Op.scansVout := by
  rw [persistTerminalDeposit]
  split
  · exact .request ⟨rfl, rfl⟩
  · exact .bind (.request trivial) fun _ => trivial

theorem refuseDeposit_scans (v : ScannedVout) (m : MatchedDeposit) (origin : DepositDoc)
    (reason : String) : (refuseDeposit cfg v m origin reason).Only Op.scansVout :=
  .bind (persistTerminalDeposit_scans v m origin) fun _ => alert_only (fun _ => trivial) _

theorem confirmDeposit_scans (v : ScannedVout) (m : MatchedDeposit) (origin : DepositDoc)
    (postFeeWei : Int) : (confirmDeposit v m origin postFeeWei).Only Op.scansVout := by
  rw [confirmDeposit]
  split
  · refine .bind (.request ?_) fun updated => ?_
    · intro d hd
      rw [Bool.and_eq_true] at hd
      exact hd.2
    · cases updated <;> trivial
  · refine .tryCatch (.bind (.request trivial) fun _ => trivial) fun err => ?_
    split <;> trivial

theorem creditDeposit_scans (v : ScannedVout) (m : MatchedDeposit) (origin : DepositDoc)
    (postFeeWei maxTvlWei : Int) :
    (creditDeposit cfg v m origin postFeeWei maxTvlWei).Only Op.scansVout := by
  refine .bind ?_ fun sums => ?_
  · refine .bind (.request trivial) fun first => ?_
    split
    · exact .bind (.request trivial) fun _ =>
        .bind (.bind (.request trivial) fun _ => trivial) fun _ => trivial
    · exact .bind (.bind (.request trivial) fun _ => trivial) fun _ =>
        .bind (.request trivial) fun _ => trivial
  · obtain ⟨supply, inFlight⟩ := sums
    simp only
    split
    · exact refuseDeposit_scans v m origin _
    · refine .bind (confirmDeposit_scans v m origin postFeeWei) fun confirmed => ?_
      cases confirmed with
      | none => trivial
      | some _ => exact .request trivial

theorem processMatch_scans (v : ScannedVout) (m : MatchedDeposit) :
    (processMatch cfg v m).Only Op.scansVout := by
  refine .bind (.ofExcept _) fun postFeeWei => .bind (.ofExcept _) fun minSats =>
    .bind (.ofExcept _) fun cap => .bind (.ofExcept _) fun maxTvl => ?_
  split
  · exact .bind (.request trivial) fun _ => alert_only (fun _ => trivial) _
  · split
    · exact refuseDeposit_scans v m _ _
    · refine .bind (.bind (.request trivial) fun _ => .bind (.request trivial) fun _ => trivial)
        fun daily => ?_
      split
      · exact refuseDeposit_scans v m _ _
      · exact creditDeposit_scans v m _ _ _

theorem processVout_scans (v : ScannedVout) : (processVout cfg v).Only Op.scansVout := by
  refine .bind ?_ fun matched => ?_
  · rw [matchVout]
    split
    · trivial
    · refine .bind (.request trivial) fun isKnown => ?_
      split
      · refine .bind (.request trivial) fun pending => ?_
        cases pending with
        | some _ => trivial
        | none => exact .bind (.request trivial) fun _ => trivial
      · trivial
  · cases matched with
    | none => trivial
    | some m =>
        refine .bind (.request trivial) fun already => ?_
        cases already with
        | some _ => trivial
        | none => exact processMatch_scans v m

theorem processBlock_scans (height tip : Nat) :
    (processBlock cfg height tip).Only Op.scansVout := by
  refine .bind (.request trivial) fun block => ?_
  induction block.vouts with
  | nil => trivial
  | cons x vouts ih => exact .bind (processVout_scans _) fun _ => ih

theorem updateById_signsClaimed {job : ObjectId} {u : DepositSet} (hu : u.OfSigner)
    (hmint : u.status ≠ some .minting) :
    (Deposit.updateById job u).Only fun op => op.signsClaimed job := by
  refine .request ⟨?_, hu, hmint⟩
  intro d hd
  simpa using hd

/-- An identifier is put on the row. -/
theorem DepositSet.OfSigner.of_identifier {u : DepositSet} (htxid : u.fairTxid = none)
    (hvout : u.fairVout = none) (hsats : u.amountSats = none) (hwei : u.amountWei = none)
    (hst : u.status = none) : u.OfSigner :=
  ⟨htxid, hvout, hsats, hwei, fun st h => by rw [hst] at h; cases h⟩

theorem finalizeDirectEoa_signsClaimed (job : ObjectId) (h : Hash) :
    (finalizeDirectEoa cfg job h).Only fun op => op.signsClaimed job := by
  refine .bind (.request trivial) fun receipt => ?_
  split
  · refine updateById_signsClaimed ⟨rfl, rfl, rfl, rfl, ?_⟩ (by simp)
    intro st hst
    cases hst
    exact Or.inr (Or.inl rfl)
  · refine .bind (updateById_signsClaimed ⟨rfl, rfl, rfl, rfl, ?_⟩ (by simp)) fun _ =>
      .bind (alert_only (fun _ => trivial) _) fun _ => trivial
    intro st hst
    cases hst
    exact Or.inr (Or.inr rfl)

theorem signDirectEoa_signsClaimed (job : MintJob) (d : DepositDoc) :
    (signDirectEoa cfg job d).Only fun op => op.signsClaimed d.id := by
  rw [signDirectEoa]
  split
  · exact .bind (finalizeDirectEoa_signsClaimed _ _) fun _ => trivial
  · refine .bind ?_ fun txHash => .bind (updateById_signsClaimed
      (.of_identifier rfl rfl rfl rfl rfl) (by simp)) fun _ =>
      .bind (finalizeDirectEoa_signsClaimed _ _) fun _ => trivial
    exact .bind (.ofExcept _) fun _ => .bind (.ofExcept _) fun _ => .request trivial

theorem signSafeProposal_signsClaimed (job : MintJob) (d : DepositDoc) :
    (signSafeProposal cfg job d).Only fun op => op.signsClaimed d.id := by
  refine .bind ?_ fun _ => ?_
  · rw [buildSafeContext]
    split
    · exact .request trivial
    · trivial
  · split
    · refine .bind (.tryCatch (.bind (.request trivial) fun _ => trivial) fun _ => trivial)
        fun known => ?_
      split
      · trivial
      · exact .bind (alert_only (fun _ => trivial) _) fun _ => trivial
    · exact .bind (.ofExcept _) fun data => .bind (.request trivial) fun _ =>
        .bind (.request trivial) fun hash =>
        .bind (updateById_signsClaimed (.of_identifier rfl rfl rfl rfl rfl) (by simp)) fun _ =>
        .bind (.request trivial) fun _ => .bind (.request trivial) fun _ =>
        .bind (alert_only (fun _ => trivial) _) fun _ => trivial

theorem signClaimed_signsClaimed (job : MintJob) (d : DepositDoc) :
    (signClaimed cfg job d).Only fun op => op.signsClaimed d.id := by
  rw [signClaimed]
  split
  · exact .bind (signSafeProposal_signsClaimed job d) fun _ => .request trivial
  · exact .bind (signDirectEoa_signsClaimed job d) fun _ => .request trivial

end Requests

/-- The world, and whether the row is being watched. -/
structure Watched where
  world : World
  watched : Bool

theorem ClaimsStay.trans {w₁ w₂ w₃ : World} (h : ClaimsStay w₁ w₂) (h' : ClaimsStay w₂ w₃) :
    ClaimsStay w₁ w₃ := fun i hi => h' i (h i hi)

/-- What happens around the service leaves the rows alone but for new intents. -/
theorem CreditSafe.of_env {e : EnvEvent} {signer : Bool} {watched : Prop}
    (h : e.occur w = some w') : CreditSafe id signer watched w w' := by
  refine .of_kept ?_ (EnvEvent.occur_surroundings h).deposits
  cases e with
  | wait _ | transactionKnown _ _ | credit _ | masternodes _ | abort | restart
  | serveFirst _ | market _ =>
      cases h
      exact fun hw => hw
  | mine _ _ | foreignReceipt _ _ | baseBlock _ | fairBlock _ | confirm _ | order _ _ | quote _ =>
      simp only [EnvEvent.occur] at h
      split at h <;> cases h
      exact fun hw => hw
  | intent _ _ _ _ =>
      simp only [EnvEvent.occur] at h
      split at h <;> cases h
      intro hw txid n
      refine (hw txid n).insert (.inl ?_)
      intro hkey
      cases hkey

def creditRules (cfg : Config) {ι : Type} (signs : ι → Bool) (id : ObjectId) :
    Rules (service cfg (creditRuns signs)) Watched where
  world := Watched.world
  inv s := s.world.OneRowPerVout
  rely _ s t := ClaimsStay s.world t.world ∧ (s.watched = true → t.watched = true)
  guar i s t := t.watched = s.watched ∧ ClaimsStay s.world t.world ∧
    (s.watched = true → CreditStep id (signs i) s.world t.world)
  rest _ _ := True
  hist s t := t.watched = s.watched ∧ (s.watched = true → CreditKept id s.world t.world)
  rely_refl _ _ := ⟨fun _ h => h, fun h => h⟩
  rely_trans h h' := ⟨h.1.trans h'.1, fun hs => h'.2 (h.2 hs)⟩
  guar_refl i s := ⟨rfl, fun _ h => h, fun _ d hd _ => ⟨d, hd, Or.inl rfl⟩⟩
  guar_rely _ _ _ h := ⟨h.2.1, fun hs => h.1.trans hs⟩
  rest_stable _ _ _ _ := trivial
  hist_refl s := ⟨rfl, fun _ => .refl s.world⟩
  hist_trans h h' := ⟨h'.1.trans h.1, fun hs => (h.2 hs).trans (h'.2 (h.1.trans hs))⟩
  guar_hist _ _ h := ⟨h.1, fun hs => (h.2.2 hs).kept⟩
  env_step {e s w} hi he := by
    have hsafe : CreditSafe id false (s.watched = true) s.world w :=
      .of_env (service_env he).2
    exact ⟨⟨w, s.watched⟩, rfl, hsafe.index hi, ⟨rfl, fun hs => (hsafe.credit hs).kept⟩,
      fun _ => ⟨hsafe.claims, fun hs => hs⟩⟩
  permits _ op s := s.watched = true → op.overwritesCredit id s.world = false

section Runs
variable {cfg modeCfg : Config} {ι : Type} {signs : ι → Bool} {i : ι}

/-- Only the claims of the rows matter. -/
def OfClaims (P : Watched → Prop) : Prop :=
  ∀ s t : Watched, ClaimsStay s.world t.world → P s → P t

theorem OfClaims.stable {P : Watched → Prop} (h : OfClaims P) :
    (creditRules cfg signs id).Stable i P := fun s t _ _ hst => h s t hst.1

theorem ofClaims_true : OfClaims fun _ => True := fun _ _ _ _ => trivial

theorem ofClaims_claimed (job : ObjectId) : OfClaims fun s => s.world.Claimed job :=
  fun _ _ h hs => h job hs

theorem credit_performs {β : Type} {op : Op β} {P : Watched → Prop}
    {M : Except JsError β → Watched → Prop}
    (hsafe : ∀ s out r w, P s → (s.watched = true → op.overwritesCredit id s.world = false) →
      answer none op out s.world = some (r, w) →
      CreditSafe id (signs i) (s.watched = true) s.world w ∧ M r ⟨w, s.watched⟩) :
    (creditRules cfg signs id).Performs i P op M := by
  intro s out r w hi hs hperm _ hans
  obtain ⟨h, hM⟩ := hsafe s out r w hs hperm hans
  exact ⟨⟨w, s.watched⟩, rfl, h.index hi, ⟨rfl, h.claims, h.credit⟩, hM⟩

theorem credit_processBlock (hi : signs i = false) (height tip : Nat) :
    (creditRules cfg signs id).Triple i (fun _ => True) (processBlock cfg height tip)
      (fun _ _ => True) fun _ _ => True := by
  refine .harmless (processBlock_scans height tip) ofClaims_true.stable
    (fun _ _ _ => trivial) fun op hop => ?_
  refine credit_performs fun s out r w _ hspares hans => ?_
  exact ⟨hi ▸ .of_scan hop hspares hans, trivial⟩

theorem credit_signClaimed (hi : signs i = true) {job : MintJob} {d : DepositDoc} :
    (creditRules cfg signs id).Triple i (fun s => s.world.Claimed d.id)
      (signClaimed modeCfg job d) (fun _ _ => True) fun _ _ => True := by
  have hclaimed := ofClaims_claimed d.id
  refine Triple.weaken (.harmless (signClaimed_signsClaimed job d) hclaimed.stable
    (fun _ _ _ => trivial) fun op hop => ?_) (fun _ _ h => h) (fun _ _ _ _ => trivial)
    fun _ _ _ _ => trivial
  refine credit_performs fun s out r w hs hspares hans => ?_
  have hsafe := CreditSafe.of_sign hop hs hspares hans
  exact ⟨hi ▸ hsafe, hsafe.claims d.id hs⟩

/-- A row that the run goes on with in MINTING is claimed. -/
def ClaimedIfMinting (job : ObjectId) (d : DepositDoc) (s : Watched) : Prop :=
  d.id = job ∧ (d.status = .minting → s.world.Claimed job)

theorem ofClaims_ifMinting (job : ObjectId) (d : DepositDoc) :
    OfClaims (ClaimedIfMinting job d) := fun _ _ h hs => ⟨hs.1, fun hst => h job (hs.2 hst)⟩

theorem stable_found (job : ObjectId) (a : Option DepositDoc) :
    (creditRules cfg signs id).Stable i (Found (ClaimedIfMinting job) (fun _ => True) a) := by
  cases a with
  | none => exact ofClaims_true.stable
  | some d => exact (ofClaims_ifMinting job d).stable

theorem credit_findById {job : ObjectId} :
    (creditRules cfg signs id).Triple i (fun _ => True) (Deposit.findById job)
      (Found (ClaimedIfMinting job) fun _ => True) fun _ _ => True := by
  refine .call ofClaims_true.stable (.of_rest fun _ _ _ => trivial) ?_ (stable_found job)
    ofClaims_true.stable
  refine Deposit.performs_findById ?_ fun _ _ _ => trivial
  intro s _ _
  cases hd : ((creditRules cfg signs id).world s).deposits.get job with
  | none => trivial
  | some d =>
      refine ⟨Collection.get_id hd, fun hst => ⟨d, hd, ?_⟩⟩
      simp [DepositDoc.claimed, hst]

theorem credit_claimMint (hi : signs i = true) {job : ObjectId} :
    (creditRules cfg signs id).Triple i (fun _ => True) (claimMint job)
      (Found (ClaimedIfMinting job) fun _ => True) fun _ _ => True := by
  refine .call ofClaims_true.stable (.of_rest fun _ _ _ => trivial) ?_ (stable_found job)
    ofClaims_true.stable
  refine credit_performs fun s out r w _ _ hans => ⟨by rw [hi]; exact .of_claim hans, ?_⟩
  cases r with
  | error _ => trivial
  | ok a =>
      cases a with
      | none => trivial
      | some d =>
          obtain ⟨e, _, hr, _⟩ | ⟨x, hx, hout⟩ := answer_cases hans
          · cases hr
          · have heff := effect_claimMint none job s.world
            cases hd : (s.world.deposits.get job).filter claimable with
            | none =>
                rw [hd] at heff
                cases heff.symm.trans hx
                obtain ⟨_, hr⟩ | ⟨_, _, hr⟩ := hout <;> cases hr
            | some c =>
                rw [hd] at heff
                cases heff.symm.trans hx
                obtain ⟨_, hr⟩ | ⟨_, _, hr⟩ := hout <;> cases hr
                have hget := (Option.filter_eq_some_iff.mp hd).1
                have hrow := World.get_setDeposit hget { status := some .minting }
                exact ⟨Collection.get_id hget, fun _ => ⟨_, hrow, rfl⟩⟩

theorem credit_signMint (hi : signs i = true) (job : MintJob) :
    (creditRules cfg signs id).Triple i (fun _ => True) (signMint modeCfg job)
      (fun _ _ => True) fun _ _ => True := by
  refine .bind credit_findById fun initial => ?_
  cases initial with
  | none => exact .pure ofClaims_true.stable fun _ _ _ => trivial
  | some initial =>
      have hseen := ofClaims_ifMinting job.depositId initial
      simp only
      split
      · exact .pure hseen.stable fun _ _ _ => trivial
      · split
        · exact .throw hseen.stable fun _ _ _ => trivial
        · refine .bind (M := Found (ClaimedIfMinting job.depositId) fun _ => True) ?_
            fun deposit => ?_
          · rw [claimOrReread]
            split
            · refine .bind ((credit_claimMint hi).pre fun _ _ _ => trivial) fun claimed => ?_
              cases claimed with
              | some d => exact .pure (ofClaims_ifMinting _ d).stable fun _ _ h => h
              | none => exact credit_findById
            · exact .pure hseen.stable fun _ _ h => h
          · cases deposit with
            | none => exact .pure ofClaims_true.stable fun _ _ _ => trivial
            | some d =>
                have hheld := ofClaims_ifMinting job.depositId d
                simp only
                split
                · rename_i hst
                  refine .fact (fun _ _ h => h.1) fun hid => ?_
                  exact (credit_signClaimed hi).pre fun _ _ h => hid ▸ h.2 hst
                · exact .pure hheld.stable fun _ _ _ => trivial

theorem credit_starts : (creditRules cfg signs id).Starts := by
  intro i t s hs _ hready
  cases t with
  | processBlock height tip =>
      have hi : signs i = false := by simpa [service, creditRuns] using hready
      exact credit_processBlock hi height tip s hs trivial
  | signMint mode job =>
      have hi : signs i = true := hready
      exact credit_signMint hi job s hs trivial
  | _ => cases hready

end Runs

section Rows
variable {cfg : Config} {ι : Type} [DecidableEq ι] {signs : ι → Bool}
  {p q : Pool Op JsError World ι} {s : Watched}

/-- The event leaves the row as it was, or it is a step of a signer that moves it on. -/
def MovesRow (signs : ι → Bool) (e : Event JsError ι Task EnvEvent) (d d' : DepositDoc) : Prop :=
  d' = d ∨ (∃ i out, e = .step i out ∧ signs i = true) ∧ d.Same d' ∧
    (d'.status = d.status ∨ d.status.Mints d'.status)

theorem movesRow_next (hgood : (creditRules cfg signs id).Good p s) (hs : s.watched = true)
    {d : DepositDoc} (hd : p.world.deposits.get id = some d) (hclosed : d.isOpen = false)
    {e : Event JsError ι Task EnvEvent} (hasks : System.Asks (sparesCredit id) p e)
    (hq : (service cfg (creditRuns signs)).next p e = some q) :
    ∃ d', q.world.deposits.get id = some d' ∧ MovesRow signs e d d' := by
  have hworld : s.world = p.world := hgood.world
  cases e with
  | start i t =>
      simp only [System.next] at hq
      split at hq <;> cases hq
      exact ⟨d, hd, Or.inl rfl⟩
  | kill i =>
      simp only [System.next] at hq
      split at hq <;> try contradiction
      split at hq <;> cases hq
      exact ⟨d, hd, Or.inl rfl⟩
  | env e =>
      obtain ⟨w, hw, rfl⟩ := Option.map_eq_some_iff.mp hq
      exact ⟨d, (EnvEvent.occur_surroundings (service_env hw).2).deposits id d hd, Or.inl rfl⟩
  | step i out =>
      have hperm : (p.slot i).Awaiting fun op => (creditRules cfg signs id).permits i op s := by
        have hasks : (p.slot i).Awaiting (sparesCredit id p i) := hasks
        cases hp : p.slot i with
        | pure _ | throw _ => trivial
        | await op k =>
            rw [hp] at hasks
            intro _
            rw [hworld]
            exact hasks
      obtain ⟨t, ht, hguar⟩ := hgood.step hperm hq
      have htworld : t.world = q.world := ht.world
      obtain ⟨d', hd', hmove⟩ := hguar.2.2 hs d (hworld ▸ hd) hclosed
      refine ⟨d', htworld ▸ hd', ?_⟩
      cases hmove with
      | inl hsame => exact Or.inl hsame
      | inr hmove => exact Or.inr ⟨⟨i, out, rfl, hmove.1⟩, hmove.2⟩

/-- Up to where the row is watched, anything may be performed. -/
theorem credit_reaches {w : World} (hw : w.OneRowPerVout)
    {es : List (Event JsError ι Task EnvEvent)}
    (hp : (service cfg (creditRuns signs)).exec (.init w) es = some p) :
    ∃ s, (creditRules cfg signs id).Good p s ∧ s.watched = false := by
  refine System.exec_induction _
    (P := fun p => ∃ s, (creditRules cfg signs id).Good p s ∧ s.watched = false) ?_
    ⟨⟨w, false⟩, .init rfl hw fun _ => trivial, rfl⟩ hp
  intro p e q hgood hq
  obtain ⟨s, hs, hoff⟩ := hgood
  have hperm : (creditRules cfg signs id).Permitted p s e := by
    cases e with
    | start _ _ | kill _ | env _ => trivial
    | step i out =>
        simp only [Rules.Permitted]
        cases p.slot i with
        | pure _ | throw _ => trivial
        | await op k =>
            intro hon
            rw [hoff] at hon
            cases hon
  obtain ⟨t, ht, hsame, _⟩ := hs.next credit_starts hperm hq
  exact ⟨t, ht, hsame.trans hoff⟩

theorem credit_watch (h : ∃ s, (creditRules cfg signs id).Good p s ∧ s.watched = false) :
    ∃ s, (creditRules cfg signs id).Good p s ∧ s.watched = true := by
  obtain ⟨s, hs, _⟩ := h
  exact ⟨⟨s.world, true⟩, hs.shift hs.world hs.inv fun _ => ⟨fun _ h => h, fun _ => rfl⟩, rfl⟩

end Rows

namespace Sample

/-- Slot `true` is a signer's. -/
def watcherAndSigner : Bool → Bool := fun b => b

theorem capWorld_indexed : capWorld.OneRowPerVout := by
  intro txid n d hd e he hdkey hekey
  have hdocs : ∀ d ∈ capWorld.deposits.docs,
      d = { baseAddress := ⟨7⟩, fairAddress := "fAddress", hdIndex := 0 } :=
    fun d hd => List.mem_singleton.mp hd
  rw [hdocs d hd, hdocs e he]

/-- The watcher credits the first payment. -/
def firstCredited : List (Event JsError Bool Task EnvEvent) :=
  .start false (.processBlock 1 2) :: List.replicate 11 (.step false .done)

/-- The mint of the first payment, to its end. -/
def firstMinted : List (Event JsError Bool Task EnvEvent) :=
  .start true (.signMint .directEoa ⟨0, ⟨7⟩, 9970000000000000000, txid, 0⟩) ::
    List.replicate 4 (.step true .done) ++ .env (.mine ⟨0⟩ true) ::
    List.replicate 3 (.step true .done)

/-- The second watcher finds the intent open, then the first one credits it. -/
def creditedUnderScan : List (Event JsError Bool Task EnvEvent) :=
  .start true (.processBlock 2 2) :: List.replicate 3 (.step true .done) ++ firstCredited

/-- The second watcher reads the daily sum and refuses its payment. -/
def refusedScan : List (Event JsError Bool Task EnvEvent) := List.replicate 4 (.step true .done)

end Sample

end FairBridge

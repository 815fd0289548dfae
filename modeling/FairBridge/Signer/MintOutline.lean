import FairBridge.Service

/-!
A proof outline of the mint signer in direct_eoa mode: what a run knows at each
of its awaits, and what each of its requests has to keep. Every guarantee about
the signer is such an outline with assertions of its own.
-/

namespace FairBridge
open Store Async Async.Rules

variable {ι S τ : Type} {sys : System Op JsError World ι τ EnvEvent}

/-- `start` is known before a run, `seen` of the row as first read, `refused`
once the claim found nothing, `held` of the row the run goes on with, `sent` and
`filed` of the hash before and after it is on the row, `mined` of its receipt. -/
structure MintOutline (R : Rules sys S) (i : ι) (job : MintJob) where
  start : S → Prop
  seen : DepositDoc → S → Prop
  refused : S → Prop
  held : DepositDoc → S → Prop
  sent : Hash → S → Prop
  filed : Hash → S → Prop
  mined : Hash → Receipt → S → Prop
  start_stable : R.Stable i start
  seen_stable : ∀ d, R.Stable i (seen d)
  refused_stable : R.Stable i refused
  held_stable : ∀ d, R.Stable i (held d)
  sent_stable : ∀ h, R.Stable i (sent h)
  filed_stable : ∀ h, R.Stable i (filed h)
  mined_stable : ∀ h r, R.Stable i (mined h r)
  start_rest : ∀ s, R.inv s → start s → R.rest i s
  seen_rest : ∀ d s, R.inv s → seen d s → R.rest i s
  refused_rest : ∀ s, R.inv s → refused s → R.rest i s
  held_rest : ∀ d s, R.inv s → held d s → R.rest i s
  filed_rest : ∀ h s, R.inv s → filed h s → R.rest i s
  mined_rest : ∀ h r s, R.inv s → mined h r s → R.rest i s
  held_id : ∀ d s, R.inv s → held d s → d.id = job.depositId
  resume : ∀ d s, R.inv s → seen d s → d.unsent = false → held d s
  reconcile : ∀ d h s, R.inv s → held d s → d.status = .minting →
    d.baseMintTxHash = some h → filed h s
  read : R.Performs i start (.deposit (.findOne (fun d => d.id == job.depositId) none))
    (Answered (Found seen (R.rest i)) (R.rest i))
  claim : ∀ d, d.unsent = true → R.Performs i (seen d)
    (.deposit (.findOneAndUpdate (fun d => d.id == job.depositId && claimable d) none
      { status := some .minting }))
    (Answered (Found held refused) (R.rest i))
  reread : R.Performs i refused
    (.deposit (.findOne (fun d => d.id == job.depositId) none))
    (Answered (Found held (R.rest i)) (R.rest i))
  broadcast : ∀ d args, d.status = .minting → d.baseMintTxHash = none →
    mintArgs job = .ok args → R.Performs i (held d) (.writeContract args)
    (Answered sent (R.rest i))
  sent_settled : ∀ h, R.Settled i (sent h)
    (.deposit (.updateOne (fun d => d.id == job.depositId && true)
      { baseMintTxHash := some h }) : Op Unit)
  persist : ∀ h, R.Performs i (sent h)
    (.deposit (.updateOne (fun d => d.id == job.depositId && true)
      { baseMintTxHash := some h }))
    (Answered (fun _ => filed h) (R.rest i))
  receipt : ∀ h, R.Performs i (filed h) (.waitForTransactionReceipt h)
    (Answered (mined h) (R.rest i))
  settle : ∀ h r, r.success = true → R.Performs i (mined h r)
    (.deposit (.updateOne (fun d => d.id == job.depositId && true)
      { status := some .minted, baseMintBlockNumber := some r.blockNumber }))
    (Answered (fun _ => R.rest i) (R.rest i))
  revert : ∀ h r, r.success = false → R.Performs i (mined h r)
    (.deposit (.updateOne (fun d => d.id == job.depositId && true)
      { status := some .failed }))
    (Answered (fun _ => R.rest i) (R.rest i))
  notify : ∀ message, R.Performs i (R.rest i) (.webhook message)
    (Answered (fun _ => R.rest i) (R.rest i))
  record : ∀ entry, R.Performs i (R.rest i) (.auditLog entry)
    (Answered (fun _ => R.rest i) (R.rest i))

namespace MintOutline
variable {R : Rules sys S} {i : ι} {job : MintJob} {cfg : Config}

theorem finalizeDirectEoa (O : MintOutline R i job) (h : Hash) :
    R.Triple i (O.filed h) (FairBridge.finalizeDirectEoa cfg job.depositId h)
      (fun _ => R.rest i) (fun _ => R.rest i) := by
  refine .bind (M := O.mined h) ?_ ?_
  · exact .step (O.filed_stable h) (O.filed_rest h) (O.receipt h)
      (O.mined_stable h)
  · intro r
    have hm := O.mined_stable h r
    split
    · rename_i hr
      exact .step hm (O.mined_rest h r) (O.settle h r hr) fun _ => .rest
    · rename_i hr
      refine .bind (M := fun _ => R.rest i) ?_ ?_
      · exact .step hm (O.mined_rest h r)
          (O.revert h r (by simpa using hr)) fun _ => .rest
      · intro _
        refine .bind (alert_rest O.notify _) ?_
        exact fun _ => .throw .rest fun _ _ h => h

theorem broadcastDirectEoa (O : MintOutline R i job) {d : DepositDoc}
    (hst : d.status = .minting) (hnone : d.baseMintTxHash = none) :
    R.Triple i (O.held d) (FairBridge.broadcastDirectEoa cfg job) O.sent
      (fun _ => R.rest i) := by
  refine .bind (M := fun _ => O.held d) ?_ ?_
  · exact .ofExcept (O.held_stable d) (fun _ _ _ _ h => h) (O.held_rest d)
  · intro _
    refine .bind (M := fun args s => O.held d s ∧ mintArgs job = .ok args) ?_ ?_
    · exact .ofExcept (O.held_stable d) (fun a ha s _ h => ⟨h, ha⟩) (O.held_rest d)
    · intro args
      refine .fact (fun _ _ h => h.2) ?_
      intro ha
      refine Triple.pre (P := O.held d) ?_ fun s _ h => h.1
      exact .step (O.held_stable d) (O.held_rest d)
        (O.broadcast d args hst hnone ha) O.sent_stable

theorem signDirectEoa (O : MintOutline R i job) {d : DepositDoc}
    (hst : d.status = .minting) :
    R.Triple i (O.held d) (FairBridge.signDirectEoa cfg job d) (fun _ => R.rest i)
      (fun _ => R.rest i) := by
  refine .fact (O.held_id d) ?_
  intro hid
  rw [FairBridge.signDirectEoa, hid]
  split
  · rename_i h hh
    refine .bind (M := fun _ => R.rest i) ?_ fun _ => .pure .rest fun _ _ h => h
    exact (O.finalizeDirectEoa h).pre fun s hi hd => O.reconcile d h s hi hd hst hh
  · rename_i hh
    refine .bind (O.broadcastDirectEoa hst hh) ?_
    intro h
    refine .bind (M := fun _ => O.filed h) ?_ ?_
    · exact .call (O.sent_stable h) (O.sent_settled h) (O.persist h)
        (fun _ => O.filed_stable h) .rest
    · intro _
      refine .bind (O.finalizeDirectEoa h) ?_
      exact fun _ => .pure .rest fun _ _ h => h

theorem claimOrReread (O : MintOutline R i job) (d : DepositDoc) :
    R.Triple i (O.seen d) (FairBridge.claimOrReread job.depositId d)
      (Found O.held (R.rest i)) (fun _ => R.rest i) := by
  rw [FairBridge.claimOrReread]
  split
  · rename_i hd
    refine .bind (M := Found O.held O.refused) ?_ ?_
    · refine .step (O.seen_stable d) (O.seen_rest d) (O.claim d hd) ?_
      intro a
      cases a with
      | none => exact O.refused_stable
      | some e => exact O.held_stable e
    · intro a
      cases a with
      | some e => exact .pure (O.held_stable e) fun _ _ h => h
      | none =>
          refine .step O.refused_stable O.refused_rest O.reread ?_
          intro b
          cases b with
          | none => exact .rest
          | some e => exact O.held_stable e
  · rename_i hd
    refine .pure (O.seen_stable d) ?_
    exact fun s hi h => O.resume d s hi h (Bool.eq_false_iff.mpr hd)

theorem signClaimed (O : MintOutline R i job) (hmode : cfg.mintAuthMode = .directEoa)
    {d : DepositDoc} (hst : d.status = .minting) :
    R.Triple i (O.held d) (FairBridge.signClaimed cfg job d) (fun _ => R.rest i)
      (fun _ => R.rest i) := by
  rw [FairBridge.signClaimed]
  simp only [hmode]
  refine .bind (O.signDirectEoa hst) ?_
  intro h
  exact .step .rest (fun _ _ h => h) (O.record _) fun _ => .rest

/-- Whatever its outline knows on the way, a run leaves its slot at rest. -/
theorem signMint (O : MintOutline R i job) (hmode : cfg.mintAuthMode = .directEoa) :
    R.Triple i O.start (FairBridge.signMint cfg job) (fun _ => R.rest i)
      (fun _ => R.rest i) := by
  refine .bind (M := Found O.seen (R.rest i)) ?_ ?_
  · refine .step O.start_stable O.start_rest O.read ?_
    intro a
    cases a with
    | none => exact .rest
    | some d => exact O.seen_stable d
  · intro a
    cases a with
    | none => exact .pure .rest fun _ _ h => h
    | some d =>
        simp only
        split
        · exact .pure (O.seen_stable d) (O.seen_rest d)
        · split
          · exact .throw (O.seen_stable d) (O.seen_rest d)
          · refine .bind (O.claimOrReread d) ?_
            intro b
            cases b with
            | none => exact .pure .rest fun _ _ h => h
            | some e =>
                simp only
                split
                · rename_i hst
                  exact O.signClaimed hmode hst
                · exact .pure (O.held_stable e) (O.held_rest e)

end MintOutline
end FairBridge

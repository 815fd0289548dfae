import FairBridge.Service

/-!
A proof outline of the release signer: what a run knows at each of its awaits,
and what each of its requests has to keep.
-/

namespace FairBridge
open Store Async Async.Rules

variable {ι S τ : Type} {sys : System Op JsError World ι τ EnvEvent}

/-- `start` is known before a run, `seen` of the row as first read, `refused`
once the claim found nothing, `held` of the row the run goes on with, `sent` and
`filed` of the txid before and after it is on the row. -/
structure ReleaseOutline (R : Rules sys S) (i : ι) (job : ReleaseJob) where
  start : S → Prop
  seen : WithdrawalDoc → S → Prop
  refused : S → Prop
  held : WithdrawalDoc → S → Prop
  sent : Txid → S → Prop
  filed : Txid → S → Prop
  start_stable : R.Stable i start
  seen_stable : ∀ d, R.Stable i (seen d)
  refused_stable : R.Stable i refused
  held_stable : ∀ d, R.Stable i (held d)
  sent_stable : ∀ t, R.Stable i (sent t)
  filed_stable : ∀ t, R.Stable i (filed t)
  start_rest : ∀ s, R.inv s → start s → R.rest i s
  seen_rest : ∀ d s, R.inv s → seen d s → R.rest i s
  refused_rest : ∀ s, R.inv s → refused s → R.rest i s
  held_rest : ∀ d s, R.inv s → held d s → R.rest i s
  filed_rest : ∀ t s, R.inv s → filed t s → R.rest i s
  seen_id : ∀ d s, R.inv s → seen d s → d.id = job.withdrawalId
  held_id : ∀ d s, R.inv s → held d s → d.id = job.withdrawalId
  resume : ∀ d s, R.inv s → seen d s → d.fairTxid ≠ none → held d s
  reconcile : ∀ d t s, R.inv s → held d s → d.status = .signing →
    d.fairTxid = some t → filed t s
  read : R.Performs i start
    (.withdrawal (.findOne (fun d => d.id == job.withdrawalId) none))
    (Answered (Found seen (R.rest i)) (R.rest i))
  validate : ∀ d, d.fairTxid = none → R.Performs i (seen d)
    (.validateAddress job.destinationFairAddress)
    (Answered (fun _ => seen d) (R.rest i))
  reject : ∀ d, d.fairTxid = none → R.Performs i (seen d)
    (.withdrawal (.updateOne (fun d => d.id == job.withdrawalId && true)
      { status := some .failed }))
    (Answered (fun _ => R.rest i) (R.rest i))
  claim : ∀ d, d.fairTxid = none → R.Performs i (seen d)
    (.withdrawal (.findOneAndUpdate (fun d => d.id == job.withdrawalId && releasable d) none
      { status := some .signing }))
    (Answered (Found held refused) (R.rest i))
  reread : R.Performs i refused
    (.withdrawal (.findOne (fun d => d.id == job.withdrawalId) none))
    (Answered (Found held (R.rest i)) (R.rest i))
  lookup : ∀ t, R.Performs i (filed t) (.getRawTransaction t)
    (Answered (fun _ => filed t) (filed t))
  clock : ∀ t, R.Performs i (filed t) .dateNow (Answered (fun _ => filed t) (R.rest i))
  broadcast : ∀ d, d.status = .signing → d.fairTxid = none → R.Performs i (held d)
    (.sendToAddress job.destinationFairAddress (satsToFair job.amountSats) none)
    (Answered sent (R.rest i))
  clock_sent : ∀ t, R.Performs i (sent t) .dateNow (Answered (fun _ => sent t) (R.rest i))
  clock_settled : ∀ t, R.Settled i (sent t) .dateNow
  sent_settled : ∀ t now, R.Settled i (sent t)
    (.withdrawal (.updateOne (fun d => d.id == job.withdrawalId && true)
      { fairTxid := some t, fairBroadcastAt := some now }) : Op Unit)
  persist : ∀ t now, R.Performs i (sent t)
    (.withdrawal (.updateOne (fun d => d.id == job.withdrawalId && true)
      { fairTxid := some t, fairBroadcastAt := some now }))
    (Answered (fun _ => filed t) (R.rest i))
  finish : ∀ t sentAt, R.Performs i (filed t)
    (.withdrawal (.updateOne (fun d => d.id == job.withdrawalId && true)
      { status := some .broadcast, fairBroadcastAt := sentAt }))
    (Answered (fun _ => R.rest i) (R.rest i))
  notify : ∀ message, R.Performs i (R.rest i) (.webhook message)
    (Answered (fun _ => R.rest i) (R.rest i))
  record : ∀ entry, R.Performs i (R.rest i) (.auditLog entry)
    (Answered (fun _ => R.rest i) (R.rest i))
  deliver : ∀ filter set, R.Performs i (R.rest i)
    (.buyOrder (.findOneAndUpdate filter none set))
    (Answered (fun _ => R.rest i) (R.rest i))

namespace ReleaseOutline
variable {R : Rules sys S} {i : ι} {job : ReleaseJob} {cfg : Config}

theorem rejectInvalidAddress (O : ReleaseOutline R i job) (d : WithdrawalDoc) :
    R.Triple i (O.seen d) (FairBridge.rejectInvalidAddress job d) (fun _ => O.seen d)
      (fun _ => R.rest i) := by
  refine .fact (O.seen_id d) ?_
  intro hid
  rw [FairBridge.rejectInvalidAddress, hid]
  split
  · rename_i hd
    rw [Option.isNone_iff_eq_none] at hd
    refine .bind (M := fun _ => O.seen d) ?_ ?_
    · exact .step (O.seen_stable d) (O.seen_rest d) (O.validate d hd)
        (fun _ => O.seen_stable d)
    · intro valid
      split
      · exact .pure (O.seen_stable d) fun _ _ h => h
      · refine .bind (M := fun _ => R.rest i) ?_ ?_
        · exact .step (O.seen_stable d) (O.seen_rest d) (O.reject d hd)
            fun _ => .rest
        · exact fun _ => .throw .rest fun _ _ h => h
  · exact .pure (O.seen_stable d) fun _ _ h => h

theorem claimReleaseOrReread (O : ReleaseOutline R i job) (d : WithdrawalDoc) :
    R.Triple i (O.seen d) (FairBridge.claimReleaseOrReread job.withdrawalId d)
      (Found O.held (R.rest i)) (fun _ => R.rest i) := by
  rw [FairBridge.claimReleaseOrReread]
  split
  · rename_i hd
    rw [Option.isNone_iff_eq_none] at hd
    refine .bind (M := Found O.held O.refused) ?_ ?_
    · refine .step (O.seen_stable d) (O.seen_rest d) (O.claim d hd) ?_
      intro a
      cases a with
      | none => exact O.refused_stable
      | some e => exact O.held_stable e
    · intro a
      cases a with
      | some e => exact .pure (O.held_stable e) fun _ _ h => h
      | none =>
          refine .step O.refused_stable O.refused_rest O.reread ?_
          intro b
          cases b with
          | none => exact .rest
          | some e => exact O.held_stable e
  · rename_i hd
    refine .pure (O.seen_stable d) ?_
    exact fun s hi h => O.resume d s hi h fun hn => hd (Option.isNone_iff_eq_none.mpr hn)

/-- The lookup changes nothing, whether it finds the transaction or raises. -/
theorem fairTxExists (O : ReleaseOutline R i job) (t : Txid) :
    R.Triple i (O.filed t) (FairBridge.fairTxExists t) (fun _ => O.filed t)
      (fun _ => O.filed t) := by
  have hf := O.filed_stable t
  refine .tryCatch (M := fun _ => O.filed t) ?_ ?_
  · refine .bind (M := fun _ => O.filed t) ?_ fun _ => .pure hf fun _ _ h => h
    exact .call hf (.of_rest (O.filed_rest t)) (O.lookup t) (fun _ => hf) hf
  · intro e
    split
    · exact .pure hf fun _ _ h => h
    · exact .throw hf fun _ _ h => h

theorem signNodeWallet (O : ReleaseOutline R i job) {d : WithdrawalDoc}
    (hst : d.status = .signing) :
    R.Triple i (O.held d) (FairBridge.signNodeWallet cfg job d) (fun _ => R.rest i)
      (fun _ => R.rest i) := by
  refine .fact (O.held_id d) ?_
  intro hid
  rw [FairBridge.signNodeWallet, hid]
  split
  · rename_i t ht
    have hf := O.filed_stable t
    refine .bind (M := fun _ => O.filed t) ?_ ?_
    · refine Triple.pre (P := O.filed t) ?_ fun s hi h => O.reconcile d t s hi h hst ht
      exact (O.fairTxExists t).weaken (fun _ _ h => h) (fun _ _ _ h => h)
        fun _ s hi h => O.filed_rest t s hi h
    · intro found
      split
      · have finish : ∀ sentAt, R.Triple i (O.filed t)
            (do Withdrawal.updateById job.withdrawalId
                  { status := some .broadcast, fairBroadcastAt := some sentAt }
                return t) (fun _ => R.rest i) (fun _ => R.rest i) := by
          intro sentAt
          refine .bind (M := fun _ => R.rest i) ?_ fun _ => .pure .rest fun _ _ h => h
          exact .step hf (O.filed_rest t) (O.finish t (some sentAt))
            fun _ => .rest
        split
        · exact finish _
        · refine .bind (M := fun _ => O.filed t) ?_ finish
          exact .step hf (O.filed_rest t) (O.clock t) (fun _ => hf)
      · refine .bind (M := fun _ => R.rest i) ?_ fun _ => .throw .rest fun _ _ h => h
        exact (alert_rest O.notify _).pre (O.filed_rest t)
  · rename_i ht
    refine .bind (M := O.sent) ?_ ?_
    · exact .step (O.held_stable d) (O.held_rest d) (O.broadcast d hst ht)
        O.sent_stable
    · intro t
      refine .bind (M := fun _ => O.sent t) ?_ ?_
      · exact .call (O.sent_stable t) (O.clock_settled t) (O.clock_sent t)
          (fun _ => O.sent_stable t) .rest
      · intro now
        refine .bind (M := fun _ => O.filed t) ?_ ?_
        · exact .call (O.sent_stable t) (O.sent_settled t now) (O.persist t now)
            (fun _ => O.filed_stable t) .rest
        · intro _
          refine .bind (M := fun _ => R.rest i) ?_ fun _ => .pure .rest fun _ _ h => h
          exact .step (O.filed_stable t) (O.filed_rest t) (O.finish t none)
            fun _ => .rest

theorem releaseClaimed (O : ReleaseOutline R i job) {d : WithdrawalDoc}
    (hst : d.status = .signing) :
    R.Triple i (O.held d) (FairBridge.releaseClaimed cfg job d) (fun _ => R.rest i)
      (fun _ => R.rest i) := by
  refine .bind (O.signNodeWallet hst) ?_
  intro t
  refine .bind (M := fun _ => R.rest i) ?_ ?_
  · exact .step .rest (fun _ _ h => h) (O.record _) fun _ => .rest
  · intro _
    refine .tryCatch (M := fun _ => R.rest i) ?_ fun _ => .pure .rest fun _ _ h => h
    refine .bind (M := fun _ => R.rest i) ?_ fun _ => .pure .rest fun _ _ h => h
    exact .step .rest (fun _ _ h => h) (O.deliver _ _) fun _ => .rest

/-- Whatever its outline knows on the way, a run leaves its slot at rest. -/
theorem signRelease (O : ReleaseOutline R i job) :
    R.Triple i O.start (FairBridge.signRelease cfg job) (fun _ => R.rest i)
      (fun _ => R.rest i) := by
  refine .bind (M := Found O.seen (R.rest i)) ?_ ?_
  · refine .step O.start_stable O.start_rest O.read ?_
    intro a
    cases a with
    | none => exact .rest
    | some d => exact O.seen_stable d
  · intro a
    cases a with
    | none => exact .pure .rest fun _ _ h => h
    | some d =>
        have hd := O.seen_stable d
        simp only
        split
        · exact .pure hd (O.seen_rest d)
        · split
          · exact .throw hd (O.seen_rest d)
          · split
            · exact .throw hd (O.seen_rest d)
            · refine .bind (O.rejectInvalidAddress d) ?_
              intro _
              refine .bind (O.claimReleaseOrReread d) ?_
              intro b
              cases b with
              | none => exact .pure .rest fun _ _ h => h
              | some e =>
                  simp only
                  split
                  · rename_i hst
                    exact O.releaseClaimed hst
                  · exact .pure (O.held_stable e) (O.held_rest e)

end ReleaseOutline
end FairBridge

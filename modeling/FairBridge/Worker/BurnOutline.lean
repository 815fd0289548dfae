import FairBridge.Service

/-!
A proof outline of one pass of the watcher over a burn: what the pass knows at
each of its awaits, and what each of its requests has to keep.
-/

namespace FairBridge
open Store Async Async.Rules

variable {ι S τ : Type} {sys : System Op JsError World ι τ EnvEvent}

/-- `base` is known throughout, `clocked` of the time the daily sum is asked for at, `summed`
of that sum, `recorded` once the burn has a row, and `created` of a new row whose release is
not enqueued yet. -/
structure DailyOutline (R : Rules sys S) (i : ι) (cfg : Config) (l : BurnLog) where
  base : S → Prop
  clocked : Nat → S → Prop
  summed : Int → S → Prop
  recorded : S → Prop
  created : Int → WithdrawalDoc → S → Prop
  base_stable : R.Stable i base
  clocked_stable : ∀ now, R.Stable i (clocked now)
  summed_stable : ∀ n, R.Stable i (summed n)
  recorded_stable : R.Stable i recorded
  created_stable : ∀ sats d, R.Stable i (created sats d)
  base_rest : ∀ s, R.inv s → base s → R.rest i s
  clocked_rest : ∀ now s, R.inv s → clocked now s → R.rest i s
  summed_base : ∀ n s, R.inv s → summed n s → base s
  recorded_rest : ∀ s, R.inv s → recorded s → R.rest i s
  created_rest : ∀ sats d s, R.inv s → created sats d s → R.rest i s
  find : R.Performs i base
    (.withdrawal (.findOne
      (fun d => d.baseBurnTxHash == l.txHash && d.logIndex == l.logIndex) none))
    (Answered (Found (fun _ => recorded) base) (R.rest i))
  validate : R.Performs i base (.validateAddress l.faircoinAddress)
    (Answered (fun _ => base) base)
  clock : R.Performs i base .dateNow (Answered clocked (R.rest i))
  daily : ∀ now, R.Performs i (clocked now)
    (.withdrawal (.find (recentWithdrawal now l.burn.source) none))
    (Answered (fun rows => summed (rows.map WithdrawalDoc.amountSats).sum) (R.rest i))
  refuse : R.Performs i base (.withdrawal (.create l.refused))
    (Answered (fun _ => recorded) (R.rest i))
  confirm : ∀ n capSats sats, cfg.perAddressDailyCapFair.toSats = .ok capSats →
    n + l.amountSats ≤ capSats → applyFee l.amountSats cfg.bridgeFeeBps = .ok sats →
    R.Performs i (summed n) (.withdrawal (.create (l.confirmed sats)))
      (Answered (created sats) (R.rest i))
  enqueue : ∀ sats d, R.Performs i (created sats d) (.addReleaseJob (l.job d.id sats))
    (Answered (fun _ => recorded) (R.rest i))
  notify : ∀ message, R.Performs i recorded (.webhook message)
    (Answered (fun _ => recorded) recorded)

namespace DailyOutline
variable {R : Rules sys S} {i : ι} {cfg : Config} {l : BurnLog}

theorem refuseBurn (O : DailyOutline R i cfg l) (reason : String) :
    R.Triple i O.base (FairBridge.refuseBurn cfg l reason) (fun _ => O.recorded)
      (fun _ => R.rest i) := by
  refine .bind (M := fun _ => O.recorded) ?_ ?_
  · exact .step O.base_stable O.base_rest O.refuse fun _ => O.recorded_stable
  · intro _
    exact (alert_keeps O.recorded_stable O.recorded_rest O.notify reason).weaken
      (fun _ _ h => h) (fun _ _ _ h => h) fun _ => O.recorded_rest

theorem confirmBurn (O : DailyOutline R i cfg l) {n capSats : Int}
    (hcap : cfg.perAddressDailyCapFair.toSats = .ok capSats)
    (hroom : n + l.amountSats ≤ capSats) :
    R.Triple i (O.summed n) (FairBridge.confirmBurn cfg l) (fun _ => O.recorded)
      (fun _ => R.rest i) := by
  have hrest : ∀ s, R.inv s → O.summed n s → R.rest i s :=
    fun s hi h => O.base_rest s hi (O.summed_base n s hi h)
  refine .bind (M := fun sats s => O.summed n s ∧
    applyFee l.amountSats cfg.bridgeFeeBps = .ok sats) ?_ ?_
  · exact .ofExcept (O.summed_stable n) (fun _ h _ _ hb => ⟨hb, h⟩) hrest
  · intro sats
    refine .fact (fun _ _ h => h.2) ?_
    intro hsats
    refine Triple.pre (P := O.summed n) ?_ fun _ _ h => h.1
    refine .bind (M := O.created sats) ?_ ?_
    · exact .step (O.summed_stable n) hrest (O.confirm n capSats sats hcap hroom hsats)
        (O.created_stable sats)
    · intro d
      exact .step (O.created_stable sats d) (O.created_rest sats d) (O.enqueue sats d)
        fun _ => O.recorded_stable

theorem sumDaily (O : DailyOutline R i cfg l) :
    R.Triple i O.base (sumDailyWithdrawalSatsForAddress l.burn.source) O.summed
      (fun _ => R.rest i) := by
  have hsum : ∀ rows : List WithdrawalDoc,
      R.Stable i (O.summed (rows.map WithdrawalDoc.amountSats).sum) :=
    fun _ => O.summed_stable _
  refine .bind (M := O.clocked) ?_ ?_
  · exact .step O.base_stable O.base_rest O.clock O.clocked_stable
  · intro now
    refine .bind (M := fun (rows : List WithdrawalDoc) =>
      O.summed (rows.map WithdrawalDoc.amountSats).sum) ?_ ?_
    · exact .step (O.clocked_stable now) (O.clocked_rest now) (O.daily now) hsum
    · exact fun rows => .pure (hsum rows) fun _ _ h => h

/-- A pass that does not raise leaves a row for the burn. -/
theorem recordBurn (O : DailyOutline R i cfg l) :
    R.Triple i O.base (FairBridge.recordBurn cfg l) (fun _ => O.recorded)
      (fun _ => R.rest i) := by
  refine .bind (M := Found (fun _ => O.recorded) O.base) ?_ ?_
  · refine .step O.base_stable O.base_rest O.find ?_
    intro a
    cases a with
    | none => exact O.base_stable
    | some d => exact O.recorded_stable
  · intro a
    cases a with
    | some d => exact .pure O.recorded_stable fun _ _ h => h
    | none =>
        refine .bind (M := fun capSats s => O.base s ∧
          cfg.perAddressDailyCapFair.toSats = .ok capSats) ?_ ?_
        · exact .ofExcept O.base_stable (fun _ h _ _ hb => ⟨hb, h⟩) O.base_rest
        · intro capSats
          refine .fact (fun _ _ h => h.2) ?_
          intro hcap
          refine Triple.pre (P := O.base) ?_ fun _ _ h => h.1
          refine .bind (M := fun _ => O.base) ?_ ?_
          · refine .tryCatch (M := fun _ => O.base) ?_ fun _ => .pure O.base_stable fun _ _ h => h
            exact .call O.base_stable (.of_rest O.base_rest) O.validate
              (fun _ => O.base_stable) O.base_stable
          · intro valid
            split
            · refine .bind O.sumDaily ?_
              intro daily
              split
              · exact (O.refuseBurn _).pre (O.summed_base daily)
              · rename_i hroom
                exact O.confirmBurn hcap (Int.not_lt.mp hroom)
            · exact O.refuseBurn _

end DailyOutline

/-- A pass of which the daily sum is of no interest. -/
structure BurnOutline (R : Rules sys S) (i : ι) (cfg : Config) (l : BurnLog) where
  base : S → Prop
  recorded : S → Prop
  created : Int → WithdrawalDoc → S → Prop
  base_stable : R.Stable i base
  recorded_stable : R.Stable i recorded
  created_stable : ∀ sats d, R.Stable i (created sats d)
  base_rest : ∀ s, R.inv s → base s → R.rest i s
  recorded_rest : ∀ s, R.inv s → recorded s → R.rest i s
  created_rest : ∀ sats d s, R.inv s → created sats d s → R.rest i s
  find : R.Performs i base
    (.withdrawal (.findOne
      (fun d => d.baseBurnTxHash == l.txHash && d.logIndex == l.logIndex) none))
    (Answered (Found (fun _ => recorded) base) (R.rest i))
  validate : R.Performs i base (.validateAddress l.faircoinAddress)
    (Answered (fun _ => base) base)
  clock : R.Performs i base .dateNow (Answered (fun _ => base) (R.rest i))
  daily : ∀ filter, R.Performs i base (.withdrawal (.find filter none))
    (Answered (fun _ => base) (R.rest i))
  refuse : R.Performs i base (.withdrawal (.create l.refused))
    (Answered (fun _ => recorded) (R.rest i))
  confirm : ∀ sats, applyFee l.amountSats cfg.bridgeFeeBps = .ok sats →
    R.Performs i base (.withdrawal (.create (l.confirmed sats)))
      (Answered (created sats) (R.rest i))
  enqueue : ∀ sats d, R.Performs i (created sats d) (.addReleaseJob (l.job d.id sats))
    (Answered (fun _ => recorded) (R.rest i))
  notify : ∀ message, R.Performs i recorded (.webhook message)
    (Answered (fun _ => recorded) recorded)

namespace BurnOutline
variable {R : Rules sys S} {i : ι} {cfg : Config} {l : BurnLog}

def toDailyOutline (O : BurnOutline R i cfg l) : DailyOutline R i cfg l where
  base := O.base
  clocked _ := O.base
  summed _ := O.base
  recorded := O.recorded
  created := O.created
  base_stable := O.base_stable
  clocked_stable _ := O.base_stable
  summed_stable _ := O.base_stable
  recorded_stable := O.recorded_stable
  created_stable := O.created_stable
  base_rest := O.base_rest
  clocked_rest _ := O.base_rest
  summed_base _ _ _ h := h
  recorded_rest := O.recorded_rest
  created_rest := O.created_rest
  find := O.find
  validate := O.validate
  clock := O.clock
  daily _ := O.daily _
  refuse := O.refuse
  confirm _ _ sats _ _ hsats := O.confirm sats hsats
  enqueue := O.enqueue
  notify := O.notify

theorem recordBurn (O : BurnOutline R i cfg l) :
    R.Triple i O.base (FairBridge.recordBurn cfg l) (fun _ => O.recorded)
      (fun _ => R.rest i) :=
  O.toDailyOutline.recordBurn

end BurnOutline

/-- The same for the pass that enqueues old CONFIRMED withdrawals again: `listed`
of the rows whose jobs are still to be added. -/
structure OrphanOutline (R : Rules sys S) (i : ι) where
  base : S → Prop
  listed : List WithdrawalDoc → S → Prop
  base_stable : R.Stable i base
  listed_stable : ∀ ds, R.Stable i (listed ds)
  base_rest : ∀ s, R.inv s → base s → R.rest i s
  listed_rest : ∀ ds s, R.inv s → listed ds s → R.rest i s
  clock : R.Performs i base .dateNow (Answered (fun _ => base) (R.rest i))
  find : ∀ now, R.Performs i base (.withdrawal (.find (orphanWithdrawal now) (some 50)))
    (Answered listed (R.rest i))
  enqueue : ∀ d ds, R.Performs i (listed (d :: ds)) (.addReleaseJob d.job)
    (Answered (fun _ => listed ds) (R.rest i))

namespace OrphanOutline
variable {R : Rules sys S} {i : ι}

theorem enqueueReleases (O : OrphanOutline R i) (ds : List WithdrawalDoc) :
    R.Triple i (O.listed ds) (FairBridge.enqueueReleases ds) (fun _ => O.listed [])
      (fun _ => R.rest i) := by
  induction ds with
  | nil => exact .pure (O.listed_stable []) fun _ _ h => h
  | cons d ds ih =>
      refine .bind (M := fun _ => O.listed ds) ?_ fun _ => ih
      exact .step (O.listed_stable _) (O.listed_rest _) (O.enqueue d ds)
        fun _ => O.listed_stable ds

theorem reconcileOrphanWithdrawals (O : OrphanOutline R i) :
    R.Triple i O.base FairBridge.reconcileOrphanWithdrawals (fun _ => O.listed [])
      (fun _ => R.rest i) := by
  refine .bind (M := fun _ => O.base) ?_ ?_
  · exact .step O.base_stable O.base_rest O.clock fun _ => O.base_stable
  · intro now
    refine .bind (M := O.listed) ?_ O.enqueueReleases
    exact .step O.base_stable O.base_rest (O.find now) O.listed_stable

end OrphanOutline
end FairBridge

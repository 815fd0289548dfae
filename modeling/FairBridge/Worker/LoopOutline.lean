import FairBridge.Worker.BlockOutline

/-!
A proof outline of the loop of the FairCoin watcher, under rules that leave a run
free to die anywhere.
-/

namespace FairBridge
open Store Async Async.Rules

variable {ι S : Type} {cfg : Config} {f : Faults ι}

/-- `standing` is known of the height the cursor has, `scanned` once the block above it
is scanned, and `listed` of the rows whose addresses are to be cached. -/
structure LoopOutline (R : Rules (service cfg f) S) (i : ι) where
  standing : Int → S → Prop
  scanned : Int → S → Prop
  listed : List DepositDoc → S → Prop
  standing_stable : ∀ last, R.Stable i (standing last)
  scanned_stable : ∀ last, R.Stable i (scanned last)
  listed_stable : ∀ ds, R.Stable i (listed ds)
  rest : ∀ s, R.rest i s
  list : ∀ s ds, R.inv s → (∀ d ∈ ds, d ∈ (R.world s).deposits.docs) → listed ds s
  cache : ∀ ds, R.Performs i (listed ds)
    (.cacheAddresses ((ds.map DepositDoc.fairAddress).filter fun a => a != ""))
    (Answered (fun _ => R.rest i) (R.rest i))
  reconcile : R.Triple i (R.rest i) reconcileOrphanDeposits (fun _ => R.rest i)
    (fun _ => R.rest i)
  upsert : ∀ backfill, R.Performs i (R.rest i) (.cursorUpsert .faircoin backfill)
    (Answered standing (R.rest i))
  height : ∀ last tip, R.Triple i (standing last) (processHeight cfg (last + 1) tip)
    (fun _ => scanned last) (fun _ => R.rest i)
  set : ∀ last, R.Performs i (scanned last) (.cursorSet .faircoin (last + 1))
    (Answered (fun _ => standing (last + 1)) (R.rest i))

namespace LoopOutline
variable {R : Rules (service cfg f) S} {i : ι}

theorem getKnownDepositAddressSet (O : LoopOutline R i) :
    R.Triple i (R.rest i) FairBridge.getKnownDepositAddressSet (fun _ => R.rest i)
      (fun _ => R.rest i) := by
  refine .bind (M := fun _ => R.rest i) ?_ ?_
  · refine .step .rest (fun _ _ h => h) ?_ fun _ => .rest
    exact performs_idle (fun _ => rfl) (fun _ _ _ hx => by cases hx; rfl) fun _ _ h => h
  · intro isLoaded
    split
    · exact .pure .rest fun _ _ h => h
    · refine .bind (M := O.listed) ?_ ?_
      · refine .step .rest (fun _ _ h => h) ?_ O.listed_stable
        exact Deposit.performs_find (fun s ds hi _ hds => O.list s ds hi fun d hd => (hds d hd).1)
          fun s _ _ => O.rest s
      · intro rows
        exact .step (O.listed_stable rows) (fun s _ _ => O.rest s) (O.cache rows) fun _ => .rest

theorem scanHeights (O : LoopOutline R i) (tip : Nat) (safeTip : JsNumber) (n : Nat)
    (last : Int) :
    R.Triple i (O.standing last) (FairBridge.scanHeights cfg tip safeTip n (last + 1))
      (fun _ => R.rest i) (fun _ => R.rest i) := by
  induction n generalizing last with
  | zero => exact .pure (O.standing_stable last) fun s _ _ => O.rest s
  | succ n ih =>
      rw [FairBridge.scanHeights]
      split
      · refine .bind (M := fun _ => O.standing last) ?_ ?_
        · refine .step (O.standing_stable last) (fun s _ _ => O.rest s) ?_
            fun _ => O.standing_stable last
          exact performs_idle (fun _ => rfl) (fun _ _ _ hx => by cases hx; rfl)
            fun s _ _ => O.rest s
        · intro aborted
          split
          · exact .pure (O.standing_stable last) fun s _ _ => O.rest s
          · refine .bind (O.height last tip) ?_
            intro _
            refine .bind (M := fun _ => O.standing (last + 1)) ?_ fun _ => ih (last + 1)
            exact .step (O.scanned_stable last) (fun s _ _ => O.rest s) (O.set last)
              fun _ => O.standing_stable (last + 1)
      · exact .pure (O.standing_stable last) fun s _ _ => O.rest s

theorem fairWatcherTick (O : LoopOutline R i) (heights : Nat) :
    R.Triple i (R.rest i) (FairBridge.fairWatcherTick cfg heights) (fun _ => R.rest i)
      (fun _ => R.rest i) := by
  refine .tryCatch (M := fun _ => R.rest i) ?_ fun _ => .pure .rest fun _ _ h => h
  refine .bind O.reconcile ?_
  intro _
  refine .bind (M := fun _ => R.rest i) ?_ ?_
  · refine .step .rest (fun _ _ h => h) ?_ fun _ => .rest
    exact performs_idle (fun _ => rfl) (fun _ _ _ hx => by cases hx; rfl) fun _ _ h => h
  · intro tip
    refine .bind (M := O.standing) ?_ ?_
    · exact .step .rest (fun _ _ h => h) (O.upsert _) O.standing_stable
    · intro last
      simp only
      split
      · exact O.scanHeights tip _ heights last
      · exact .pure (O.standing_stable last) fun s _ _ => O.rest s

theorem fairWatcherLoop (O : LoopOutline R i) (heights rounds : Nat) :
    R.Triple i (R.rest i) (FairBridge.fairWatcherLoop cfg heights rounds) (fun _ => R.rest i)
      (fun _ => R.rest i) := by
  induction rounds with
  | zero => exact .pure .rest fun _ _ h => h
  | succ rounds ih =>
      refine .bind (M := fun _ => R.rest i) ?_ ?_
      · refine .step .rest (fun _ _ h => h) ?_ fun _ => .rest
        exact performs_idle (fun _ => rfl) (fun _ _ _ hx => by cases hx; rfl) fun _ _ h => h
      · intro aborted
        split
        · exact .pure .rest fun _ _ h => h
        · exact .bind (O.fairWatcherTick heights) fun _ => ih

theorem startFairWatcher (O : LoopOutline R i) (rounds heights : Nat) :
    R.Triple i (R.rest i) (FairBridge.startFairWatcher cfg rounds heights) (fun _ => R.rest i)
      (fun _ => R.rest i) :=
  .bind O.getKnownDepositAddressSet fun _ => O.fairWatcherLoop heights rounds

end LoopOutline
end FairBridge

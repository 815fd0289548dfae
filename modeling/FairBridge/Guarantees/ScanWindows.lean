import FairBridge.Async.History
import FairBridge.Service

/-!
The windows of the Base watcher. Every range of blocks it asks for starts right behind the
cursor, wherever the run before it was broken off, and the cursor moves to the end of a
range or stays. A loop that is not disturbed ends with the cursor at the safe tip.
-/

namespace FairBridge
open Store Async Async.Rules

/-- A range of blocks the watcher asks for, and where the cursor was set after it. -/
structure Scan where
  fromBlock : Int
  toBlock : Int
  cursor : Option Int := none
  deriving DecidableEq, Repr

/-- The ranges asked for, newest first. -/
def noteScan {β : Type} : Op β → Outcome → World → List Scan → List Scan
  | .getLogs fromBlock toBlock, _, _, scans => ⟨fromBlock, toBlock, none⟩ :: scans
  | .cursorSet .base block, out, _, scans =>
      if out.isFail then scans
      else match scans with
        | [] => []
        | scan :: earlier => { scan with cursor := some block } :: earlier
  | _, _, _, scans => scans

/-- The ranges follow one another from `first` on, of one to `maxLogRange` blocks each; the
cursor has moved to the end of a range or has stayed, and stands at `last` now. -/
def ScannedTo (first : Int) : List Scan → Int → Prop
  | [], last => last = first
  | scan :: earlier, last => ∃ before, ScannedTo first earlier before ∧
      scan.fromBlock = before + 1 ∧ scan.fromBlock ≤ scan.toBlock ∧
      scan.toBlock - scan.fromBlock + 1 ≤ maxLogRange ∧
      (scan.cursor = none ∧ last = before ∨ scan.cursor = some scan.toBlock ∧ last = scan.toBlock)

/-- The block is in the range, and the cursor was moved over the range. -/
def Scan.completed (block : Int) (scan : Scan) : Bool :=
  scan.cursor.isSome && decide (scan.fromBlock ≤ block) && decide (block ≤ scan.toBlock)

theorem ScannedTo.le {first last : Int} {scans : List Scan} (h : ScannedTo first scans last) :
    first ≤ last := by
  induction scans generalizing last with
  | nil => exact Int.le_of_eq h.symm
  | cons scan earlier ih =>
      obtain ⟨before, hearlier, hfrom, hto, _, hcursor⟩ := h
      have hle := ih hearlier
      omega

/-- No block is passed over or passed twice. -/
theorem ScannedTo.once {first last : Int} {scans : List Scan} (h : ScannedTo first scans last)
    (block : Int) :
    scans.countP (Scan.completed block) = if first < block ∧ block ≤ last then 1 else 0 := by
  induction scans generalizing last with
  | nil =>
      have hlast : last = first := h
      rw [if_neg (by omega)]
      rfl
  | cons scan earlier ih =>
      obtain ⟨before, hearlier, hfrom, hto, _, hcursor⟩ := h
      have hle := hearlier.le
      rw [List.countP_cons, ih hearlier]
      obtain ⟨hnone, rfl⟩ | ⟨hsome, rfl⟩ := hcursor
      · simp only [Scan.completed, hnone, Option.isSome_none, Bool.false_and, Bool.false_eq_true,
          if_false, Nat.add_zero]
      · simp only [Scan.completed, hsome, Option.isSome_some, Bool.true_and, Bool.and_eq_true,
          decide_eq_true_eq]
        by_cases hbefore : first < block ∧ block ≤ before
        · rw [if_pos hbefore, if_neg (by omega), if_pos (by omega)]
        · rw [if_neg hbefore]
          by_cases hscan : scan.fromBlock ≤ block ∧ block ≤ scan.toBlock
          · rw [if_pos hscan, if_pos (by omega)]
          · rw [if_neg hscan, if_neg (by omega)]

/-- The cursor was moved over every range. -/
def Complete (first : Int) (scans : List Scan) (last : Int) : Prop :=
  ScannedTo first scans last ∧ ∀ scan ∈ scans, scan.cursor = some scan.toBlock

/-- The requests that deal with logs and orphans; the cursor is none of their business. -/
def Op.onLogs {β : Type} : Op β → Prop
  | .withdrawal _ | .addReleaseJob _ | .validateAddress _ | .dateNow | .webhook _
  | .signalAborted _ => True
  | _ => False

section OnLogs
variable {cfg : Config} {β : Type} {op : Op β}

theorem effect_onLogs (hop : op.onLogs) (row : Option ObjectId) (w : World) :
    ∃ x w', effect row op w = some (x, w') ∧ w'.cursor = w.cursor ∧ w'.aborted = w.aborted := by
  cases op with
  | withdrawal q => exact ⟨_, _, rfl, rfl, rfl⟩
  | addReleaseJob job => exact ⟨_, _, rfl, rfl, rfl⟩
  | validateAddress address => exact ⟨_, _, rfl, rfl, rfl⟩
  | dateNow => exact ⟨_, _, rfl, rfl, rfl⟩
  | webhook message => exact ⟨_, _, rfl, rfl, rfl⟩
  | signalAborted pending => exact ⟨_, _, rfl, rfl, rfl⟩
  | _ => cases hop

theorem recordCall_onLogs (hop : op.onLogs) (w : World) : recordCall op w = w := by
  cases op with
  | withdrawal _ | addReleaseJob _ | validateAddress _ | dateNow | webhook _
  | signalAborted _ => rfl
  | _ => cases hop

theorem noteScan_onLogs (hop : op.onLogs) (out : Outcome) (w : World) (scans : List Scan) :
    noteScan op out w scans = scans := by
  cases op with
  | withdrawal _ | addReleaseJob _ | validateAddress _ | dateNow | webhook _
  | signalAborted _ => rfl
  | _ => cases hop

theorem refuseBurn_onLogs (l : BurnLog) (reason : String) :
    (refuseBurn cfg l reason).Only Op.onLogs :=
  .bind (.request trivial) fun _ => alert_only (fun _ => trivial) reason

theorem confirmBurn_onLogs (l : BurnLog) : (confirmBurn cfg l).Only Op.onLogs := by
  refine .bind_ofExcept fun releaseAmountSats _ => ?_
  exact .bind (.request trivial) fun doc => .request trivial

theorem recordBurn_onLogs (l : BurnLog) : (recordBurn cfg l).Only Op.onLogs := by
  refine .bind (.request trivial) fun found => ?_
  cases found with
  | some _ => trivial
  | none =>
      refine .bind_ofExcept fun perAddressCapSats _ => ?_
      refine .bind (.tryCatch (.request trivial) fun _ => trivial) fun valid => ?_
      split
      · refine .bind (.bind (.request trivial) fun now => ?_) fun dailySoFar => ?_
        · exact .bind (.request trivial) fun rows => trivial
        · split
          · exact refuseBurn_onLogs l _
          · exact confirmBurn_onLogs l
      · exact refuseBurn_onLogs l _

theorem processLogs_onLogs (logs : List Log) : (processLogs cfg logs).Only Op.onLogs := by
  induction logs with
  | nil => trivial
  | cons log logs ih =>
      refine .bind (.request trivial) fun aborted => ?_
      split
      · trivial
      · refine .bind ?_ fun _ => ih
        rw [processLog]
        split
        · exact recordBurn_onLogs _
        · trivial

theorem enqueueReleases_onLogs (orphans : List WithdrawalDoc) :
    (enqueueReleases orphans).Only Op.onLogs := by
  induction orphans with
  | nil => trivial
  | cons orphan orphans ih => exact .bind (.request trivial) fun _ => ih

theorem reconcileOrphanWithdrawals_onLogs : reconcileOrphanWithdrawals.Only Op.onLogs :=
  .bind (.request trivial) fun _ => .bind (.request trivial) fun orphans =>
    enqueueReleases_onLogs orphans

end OnLogs

def EnvEvent.aborting : EnvEvent → Bool
  | .abort => true
  | _ => false

theorem EnvEvent.occur_aborted {e : EnvEvent} {w w' : World} (h : e.occur w = some w')
    (he : e.aborting = false) (hw : w.aborted = false) : w'.aborted = false := by
  cases e with
  | abort => cases he
  | wait _ | transactionKnown _ _ | credit _ | masternodes _ | serveFirst _ | market _ =>
      cases h
      exact hw
  | restart =>
      cases h
      rfl
  | mine _ _ | foreignReceipt _ _ | baseBlock _ | fairBlock _ | order _ _ | quote _
  | intent _ _ _ _ | confirm _ =>
      simp only [occur] at h
      split at h <;> cases h
      exact hw

/-- One watcher, started again whenever its run has ended. Any request may raise and the run
may die at any await; the signal is raised only if `aborts`. -/
def windowRuns (aborts : Bool) : Faults Unit where
  ready _ _ t := match t with
    | .startBaseWatcher _ => true
    | _ => false
  may _ _ _ _ := true
  mayKill _ _ _ := true
  row _ := none
  env e _ := aborts || !e.aborting

/-- The watcher, with the record of the ranges it asks for. -/
def scanning (cfg : Config) (aborts : Bool) :
    System Op JsError (World × List Scan) Unit Task EnvEvent :=
  (service cfg (windowRuns aborts)).recorded noteScan

/-- The scans so far fit the cursor. -/
structure ScanInv (aborts : Bool) (first : Int) (s : World × List Scan) : Prop where
  scanned : ∃ last, s.1.cursor .base = some last ∧ ScannedTo first s.2 last
  aborted : aborts = false → s.1.aborted = false

/-- Neither the cursor nor the record differs. -/
structure Undisturbed (s t : World × List Scan) : Prop where
  cursor : t.1.cursor = s.1.cursor
  scans : t.2 = s.2

theorem ScanInv.undisturbed {aborts : Bool} {first : Int} {s t : World × List Scan}
    (hi : ScanInv aborts first s) (h : Undisturbed s t)
    (ha : aborts = false → t.1.aborted = false) : ScanInv aborts first t :=
  ⟨by rw [h.cursor, h.scans]; exact hi.scanned, ha⟩

def scanRules (cfg : Config) (aborts : Bool) (first : Int) :
    Rules (scanning cfg aborts) (World × List Scan) where
  world s := s
  inv := ScanInv aborts first
  rely _ := Undisturbed
  guar _ _ _ := True
  rest _ _ := True
  hist _ _ := True
  rely_refl _ _ := ⟨rfl, rfl⟩
  rely_trans h h' := ⟨h'.cursor.trans h.cursor, h'.scans.trans h.scans⟩
  guar_refl _ _ := trivial
  guar_rely hij _ _ _ := absurd rfl hij
  rest_stable _ _ _ _ := trivial
  hist_refl _ := trivial
  hist_trans _ _ := trivial
  guar_hist _ _ _ := trivial
  env_step {e s w} hi he := by
    obtain ⟨v, hv, rfl⟩ := Option.map_eq_some_iff.mp he
    obtain ⟨hmay, hoccur⟩ := service_env hv
    have hcursor : Undisturbed s (v, s.2) := ⟨(EnvEvent.occur_surroundings hoccur).cursor, rfl⟩
    refine ⟨(v, s.2), rfl, hi.undisturbed hcursor fun ha => ?_, trivial, fun _ => hcursor⟩
    have hquiet : e.aborting = false := by simpa [windowRuns, ha] using hmay
    exact EnvEvent.occur_aborted hoccur hquiet (hi.aborted ha)

section Loop
variable {cfg : Config} {aborts : Bool} {first : Int} {α β : Type} {op : Op β}
  {P : World × List Scan → Prop}

theorem scan_performs {M : Except JsError β → World × List Scan → Prop}
    (h : ∀ s out r w, ScanInv aborts first s → P s → answer none op out s.1 = some (r, w) →
      (op.synchronous = true → out = .done) →
      ScanInv aborts first (w, noteScan op out s.1 s.2) ∧ M r (w, noteScan op out s.1 s.2)) :
    (scanRules cfg aborts first).Performs () P op M := by
  intro s out r t hi hs _ hmay hans
  obtain ⟨⟨x, w⟩, hw, rfl, rfl⟩ := Option.map_eq_some_iff.mp hans
  obtain ⟨hinv, hM⟩ := h s out x w hi hs hw fun hsync => by
    cases out with
    | done => rfl
    | fail _ | lost _ => simp [scanning, System.recorded, service, hsync, Outcome.isDone] at hmay
  exact ⟨_, rfl, hinv, trivial, hM⟩

/-- What is known as long as neither the cursor nor the record differs. -/
def Unmoved (P : World × List Scan → Prop) : Prop := ∀ s t, Undisturbed s t → P s → P t

theorem Unmoved.stable (hP : Unmoved P) : (scanRules cfg aborts first).Stable () P :=
  fun s t _ _ hst hs => hP s t hst hs

/-- A request that deals with logs leaves all alone. -/
theorem scan_onLogs (hP : Unmoved P) (hop : op.onLogs) :
    (scanRules cfg aborts first).Performs () P op fun _ => P := by
  refine scan_performs fun s out r w hi hs hans _ => ?_
  rw [noteScan_onLogs hop]
  have hmoved : w.cursor = s.1.cursor ∧ w.aborted = s.1.aborted := by
    obtain ⟨_, _, _, rfl⟩ | ⟨x, hx, _⟩ := answer_cases hans
    · rw [recordCall_onLogs hop]
      exact ⟨rfl, rfl⟩
    · rw [recordCall_onLogs hop] at hx
      obtain ⟨x', w', hx', hcursor, haborted⟩ := effect_onLogs hop none s.1
      cases hx'.symm.trans hx
      exact ⟨hcursor, haborted⟩
  have hsame : Undisturbed s (w, s.2) := ⟨hmoved.1, rfl⟩
  exact ⟨hi.undisturbed hsame fun ha => hmoved.2.trans (hi.aborted ha), hP _ _ hsame hs⟩

theorem scan_quiet {p : Promise α} (hp : p.Only Op.onLogs) (hP : Unmoved P) :
    (scanRules cfg aborts first).Triple () P p (fun _ => P) fun _ _ => True :=
  (Triple.harmless hp hP.stable (fun _ _ _ => trivial) fun _ hop => scan_onLogs hP hop).weaken
    (fun _ _ h => h) (fun _ _ _ h => h) fun _ _ _ _ => trivial

/-- The cursor stands at `last`, and it was moved over every range that was asked for since
it stood at `from`. -/
def Reached (start : Int) (earlier : List Scan) (last : Int) (s : World × List Scan) : Prop :=
  s.1.cursor .base = some last ∧ ∃ scans, s.2 = scans ++ earlier ∧ Complete start scans last

/-- The next range is asked for, and the cursor is not yet moved over it. -/
def Asked (start : Int) (earlier : List Scan) (last toBlock : Int) (s : World × List Scan) : Prop :=
  s.1.cursor .base = some last ∧
    ∃ scans, s.2 = ⟨last + 1, toBlock, none⟩ :: (scans ++ earlier) ∧ Complete start scans last

theorem reached_unmoved (start : Int) (earlier : List Scan) (last : Int) :
    Unmoved (Reached start earlier last) := by
  rintro s t h ⟨hcursor, hscans⟩
  exact ⟨h.cursor ▸ hcursor, h.scans ▸ hscans⟩

theorem asked_unmoved (start : Int) (earlier : List Scan) (last toBlock : Int) :
    Unmoved (Asked start earlier last toBlock) := by
  rintro s t h ⟨hcursor, hscans⟩
  exact ⟨h.cursor ▸ hcursor, h.scans ▸ hscans⟩

variable {start last safeTip : Int} {earlier : List Scan}

theorem windowTo_range (safeTip windowFrom : Int) :
    windowTo safeTip windowFrom - windowFrom + 1 ≤ maxLogRange := by
  rw [windowTo]
  split <;> omega

/-- The range starts right behind the cursor. -/
theorem scan_getLogs (h : last + 1 ≤ safeTip) :
    (scanRules cfg aborts first).Performs () (Reached start earlier last)
      (.getLogs (last + 1) (windowTo safeTip (last + 1)))
      (Answered (fun _ => Asked start earlier last (windowTo safeTip (last + 1))) fun _ => True) := by
  refine scan_performs fun s out r w hi hs hans _ => ?_
  have hw : w = s.1 := by
    obtain ⟨_, _, _, rfl⟩ | ⟨x, hx, _⟩ := answer_cases hans
    · rfl
    · cases hx
      rfl
  subst hw
  obtain ⟨hcursor, scans, hscans, hcomplete⟩ := hs
  obtain ⟨last', hlast, hscanned⟩ := hi.scanned
  cases hcursor.symm.trans hlast
  have hto := (windowTo_mem h).1
  have hrange := windowTo_range safeTip (last + 1)
  refine ⟨⟨⟨last, hcursor, last, hscanned, rfl, hto, hrange, Or.inl ⟨rfl, rfl⟩⟩, hi.aborted⟩, ?_⟩
  cases r with
  | error _ => trivial
  | ok _ => exact ⟨hcursor, scans, congrArg (List.cons _) hscans, hcomplete⟩

/-- The cursor moves to the end of the range. -/
theorem scan_cursorSet (h : last + 1 ≤ safeTip) :
    (scanRules cfg aborts first).Performs ()
      (Asked start earlier last (windowTo safeTip (last + 1)))
      (.cursorSet .base (windowTo safeTip (last + 1)))
      (Answered (fun _ => Reached start earlier (windowTo safeTip (last + 1))) fun _ => True) := by
  refine scan_performs fun s out r w hi hs hans _ => ?_
  obtain ⟨hcursor, scans, hscans, hcomplete⟩ := hs
  obtain ⟨last', hlast, hscanned⟩ := hi.scanned
  cases hcursor.symm.trans hlast
  obtain ⟨e, rfl, rfl, rfl⟩ | ⟨x, hx, hout⟩ := answer_cases hans
  · exact ⟨⟨⟨last, hcursor, hscanned⟩, hi.aborted⟩, trivial⟩
  · have hfail : out.isFail = false := by
      obtain ⟨rfl, _⟩ | ⟨_, rfl, _⟩ := hout <;> rfl
    have hto := (windowTo_mem h).1
    have hrange := windowTo_range safeTip (last + 1)
    cases hx
    have hset : Function.update s.1.cursor .base (some (windowTo safeTip (last + 1))) .base =
        some (windowTo safeTip (last + 1)) := Function.update_self ..
    rw [hscans] at hscanned ⊢
    obtain ⟨before, hbefore, hfrom, _, _, ⟨_, rfl⟩ | ⟨hnone, _⟩⟩ := hscanned
    · have hmoved : ScannedTo first (⟨last + 1, windowTo safeTip (last + 1),
          some (windowTo safeTip (last + 1))⟩ :: (scans ++ earlier))
          (windowTo safeTip (last + 1)) :=
        ⟨last, hbefore, hfrom, hto, hrange, Or.inr ⟨rfl, rfl⟩⟩
      simp only [noteScan, hfail, Bool.false_eq_true, if_false]
      refine ⟨⟨⟨_, hset, hmoved⟩, hi.aborted⟩, ?_⟩
      cases r with
      | error _ => trivial
      | ok _ =>
          refine ⟨hset, _ :: scans, rfl, ⟨last, hcomplete.1, hfrom, hto, hrange, Or.inr ⟨rfl, rfl⟩⟩, ?_⟩
          exact List.forall_mem_cons.mpr ⟨rfl, hcomplete.2⟩
    · cases hnone

theorem scan_signal (hP : Unmoved P) (pending : List Log) :
    (scanRules cfg aborts first).Performs () P (.signalAborted pending)
      (Answered (fun aborted s => P s ∧ (aborted = true → aborts = true)) fun _ => True) := by
  refine scan_performs fun s out r w hi hs hans hdone => ?_
  cases hdone rfl
  cases hans
  refine ⟨hi, hs, fun haborted => ?_⟩
  by_contra hnot
  have hquiet := hi.aborted (Bool.eq_false_iff.mpr hnot)
  exact Bool.false_ne_true (hquiet.symm.trans haborted)

variable (cfg safeTip) in
/-- The loop goes from range to range, and without an abort to the safe tip. -/
theorem scan_scanWindows (n : Nat) (last : Int) :
    (scanRules cfg aborts first).Triple () (Reached start earlier last)
      (scanWindows cfg safeTip n (last + 1))
      (fun _ s => aborts = false → last ≤ safeTip → safeTip ≤ last + n →
        Reached start earlier safeTip s)
      fun _ _ => True := by
  induction n generalizing last with
  | zero =>
      have hreached : (scanRules cfg aborts first).Stable () (Reached start earlier last) :=
        (reached_unmoved start earlier last).stable
      refine .pure hreached fun s _ hs _ hle hge => ?_
      have hlast : last = safeTip := by omega
      exact hlast ▸ hs
  | succ n ih =>
      have hreached : (scanRules cfg aborts first).Stable () (Reached start earlier last) :=
        (reached_unmoved start earlier last).stable
      rw [scanWindows]
      split
      · rename_i hle
        have hto := windowTo_mem hle
        have hunmoved : Unmoved fun s => Reached start earlier last s :=
          reached_unmoved start earlier last
        refine .bind (M := fun aborted s => Reached start earlier last s ∧
          (aborted = true → aborts = true)) ?_ fun aborted => ?_
        · refine .step hreached (fun _ _ _ => trivial) (scan_signal hunmoved [])
            fun _ s t hs ht h hr => ⟨hreached s t hs ht h hr.1, hr.2⟩
        · split
          · rename_i haborted
            refine .pure (fun s t hs ht h hr => ⟨hreached s t hs ht h hr.1, hr.2⟩)
              fun s _ hs ha => ?_
            exact absurd ((hs.2 haborted).symm.trans ha) Bool.false_ne_true.symm
          · refine .pre ?_ fun s _ hs => hs.1
            refine .bind (M := fun _ => Asked start earlier last (windowTo safeTip (last + 1))) ?_
              fun logs => ?_
            · exact .step hreached (fun _ _ _ => trivial) (scan_getLogs hle)
                fun _ => (asked_unmoved start earlier last _).stable
            · refine .bind (scan_quiet (processLogs_onLogs logs)
                (asked_unmoved start earlier last _)) fun _ => ?_
              refine .bind (M := fun _ => Reached start earlier (windowTo safeTip (last + 1))) ?_
                fun _ => ?_
              · exact .step (asked_unmoved start earlier last _).stable (fun _ _ _ => trivial)
                  (scan_cursorSet hle) fun _ => (reached_unmoved start earlier _).stable
              · refine (ih (windowTo safeTip (last + 1))).weaken (fun _ _ h => h) ?_
                  fun _ _ _ h => h
                intro _ s _ hs ha _ hn
                exact hs ha hto.2 (by omega)
      · rename_i hle
        refine .pure hreached fun s _ hs _ hlast _ => ?_
        have hlast : last = safeTip := by omega
        exact hlast ▸ hs

/-- A round reads the cursor and goes on behind it. -/
theorem scan_tick : (scanRules cfg aborts first).Triple () (fun _ => True) (baseWatcherTick cfg)
    (fun _ _ => True) fun _ _ => True := by
  have htrue : Unmoved fun _ => True := fun _ _ _ _ => trivial
  refine .tryCatch (M := fun _ _ => True) ?_ fun _ => .pure htrue.stable fun _ _ h => h
  refine .bind (scan_quiet reconcileOrphanWithdrawals_onLogs htrue) fun _ => ?_
  refine .bind (M := fun _ _ => True) ?_ fun tip => ?_
  · refine .step htrue.stable (fun _ _ h => h) ?_ fun _ => htrue.stable
    refine scan_performs fun s out r w hi hs hans _ => ?_
    have hw : w = s.1 := by
      obtain ⟨_, _, _, rfl⟩ | ⟨x, hx, _⟩ := answer_cases hans
      · rfl
      · cases hx
        rfl
    subst hw
    refine ⟨hi, ?_⟩
    cases r <;> trivial
  · have hfound : ∀ last, Unmoved fun s => ∃ earlier, Reached last earlier last s := by
      rintro last s t hst ⟨earlier, hs⟩
      exact ⟨earlier, reached_unmoved last earlier last s t hst hs⟩
    refine .bind (M := fun last s => ∃ earlier, Reached last earlier last s) ?_ fun last => ?_
    · refine .step htrue.stable (fun _ _ h => h) ?_ fun last => (hfound last).stable
      refine scan_performs fun s out r w hi hs hans _ => ?_
      obtain ⟨last, hlast, hscanned⟩ := hi.scanned
      obtain ⟨e, _, rfl, rfl⟩ | ⟨x, hx, hout⟩ := answer_cases hans
      · exact ⟨hi, trivial⟩
      · obtain ⟨found, hfound, rfl, rfl⟩ | ⟨hnone, _⟩ := effect_cursorUpsert hx
        · refine ⟨hi, ?_⟩
          obtain ⟨_, rfl⟩ | ⟨_, _, rfl⟩ := hout
          · exact ⟨s.2, hfound, [], rfl, rfl, List.forall_mem_nil _⟩
          · trivial
        · cases hnone.symm.trans hlast
    · refine .bind (M := fun _ s => ∃ earlier, Reached last earlier last s) ?_ fun confirmations => ?_
      · exact .ofExcept (hfound last).stable (fun _ _ _ _ h => h) fun _ _ _ => trivial
      · rintro s hi ⟨earlier, hs⟩
        exact (scan_scanWindows cfg _ _ last s hi hs).weaken (fun _ _ _ _ => trivial) fun _ _ _ h => h

theorem scan_startBaseWatcher (rounds : Nat) :
    (scanRules cfg aborts first).Triple () (fun _ => True) (startBaseWatcher cfg rounds)
      (fun _ _ => True) fun _ _ => True := by
  have htrue : Unmoved fun _ => True := fun _ _ _ _ => trivial
  induction rounds with
  | zero => exact .pure htrue.stable fun _ _ h => h
  | succ rounds ih =>
      refine .bind (M := fun _ _ => True) ?_ fun aborted => ?_
      · exact scan_quiet (.request trivial) htrue
      · split
        · exact .pure htrue.stable fun _ _ h => h
        · exact .bind scan_tick fun _ => ih

theorem scan_starts : (scanRules cfg aborts first).Starts := by
  intro i t s hi hrest hready
  cases t with
  | startBaseWatcher rounds => exact scan_startBaseWatcher rounds s hi trivial
  | _ => cases hready

end Loop

/-- The requests of the loop over the windows. -/
def Op.onWindows {β : Type} : Op β → Prop
  | .getLogs _ _ | .cursorSet _ _ => True
  | op => op.onLogs

theorem Op.onLogs.onWindows {β : Type} {op : Op β} (h : op.onLogs) : op.onWindows := by
  cases op with
  | getLogs _ _ | cursorSet _ _ => trivial
  | _ => exact h

theorem scanWindows_onWindows (cfg : Config) (safeTip : Int) (n : Nat) (windowFrom : Int) :
    (scanWindows cfg safeTip n windowFrom).Only Op.onWindows := by
  induction n generalizing windowFrom with
  | zero => trivial
  | succ n ih =>
      rw [scanWindows]
      split
      · refine .bind (.request trivial) fun aborted => ?_
        split
        · trivial
        · refine .bind (.request trivial) fun logs => ?_
          refine .bind ((processLogs_onLogs logs).mono fun _ h => h.onWindows) fun _ => ?_
          exact .bind (.request trivial) fun _ => ih _
      · trivial

theorem answer_onWindows {β : Type} (op : Op β) (w : World) (hop : op.onWindows) :
    (answer none op .done w).isSome := by
  cases op with
  | getLogs _ _ | cursorSet _ _ => rfl
  | withdrawal _ | addReleaseJob _ | validateAddress _ | dateNow | webhook _
  | signalAborted _ => rfl
  | _ => cases hop

/-- The loop over the windows ends by itself. If nothing raises and the signal stays down, it
has asked for the blocks up to the safe tip, range after range, and moved the cursor over
each range; and in every run of the watcher, wherever it was broken off, the ranges go on
behind the cursor. -/
theorem windows_scanned {cfg : Config} {w : World} {last safeTip : Int} (hlt : last < safeTip)
    (hcursor : w.cursor .base = some last) :
    (∀ m, scanWindows cfg safeTip ((safeTip - last).toNat + m) (last + 1) =
      scanWindows cfg safeTip (safeTip - last).toNat (last + 1)) ∧
    (∀ aborts, ((scanning cfg aborts).alone ()
      (scanWindows cfg safeTip (safeTip - last).toNat (last + 1)) (w, [])).isSome) ∧
    (∀ es q, (∀ e ∈ es, e.solo ()) → w.aborted = false →
      (scanning cfg false).exec
        ⟨(w, []), fun _ => scanWindows cfg safeTip (safeTip - last).toNat (last + 1)⟩ es = some q →
      (q.slot ()).returned = true →
      q.world.1.cursor .base = some safeTip ∧ Complete last q.world.2 safeTip) ∧
    (∀ es q, (scanning cfg true).exec (Pool.init (w, [])) es = some q →
      ∃ cursor, q.world.1.cursor .base = some cursor ∧ ScannedTo last q.world.2 cursor ∧
        ∀ block, q.world.2.countP (Scan.completed block) =
          if last < block ∧ block ≤ cursor then 1 else 0) := by
  refine ⟨fun m => ?_, fun aborts => ?_, fun es q hes habort hq hret => ?_, fun es q hq => ?_⟩
  · exact scanWindows_enough cfg safeTip (by omega) m
  · refine System.alone_isSome _ (scanWindows_onWindows cfg safeTip _ _) (fun op s hop => ?_) _
    have hans := answer_onWindows op s.1 hop
    simp only [scanning, System.recorded, service, windowRuns, Option.isSome_map]
    exact hans
  · have hi : ScanInv false last (w, []) := ⟨⟨last, hcursor, rfl⟩, fun _ => habort⟩
    have hreached : Reached last [] last (w, []) := ⟨hcursor, [], rfl, rfl, List.forall_mem_nil _⟩
    have hsafe := scan_scanWindows cfg safeTip (safeTip - last).toNat last
      (w, []) hi hreached
    obtain ⟨t, ht, hit, hend⟩ := Safe.solo (fun _ _ => trivial) rfl hi hsafe hes hq
    cases hslot : q.slot () with
    | throw _ | await _ _ => rw [hslot] at hret; cases hret
    | pure a =>
        rw [hslot] at hend
        obtain ⟨hend, scans, hscans, hcomplete⟩ :=
          hend t ⟨rfl, rfl⟩ hit rfl (Int.le_of_lt hlt) (by omega)
        rw [List.append_nil] at hscans
        have hworld : t = q.world := ht
        rw [← hworld]
        exact ⟨hend, hscans ▸ hcomplete⟩
  · have hi : ScanInv true last (w, []) := ⟨⟨last, hcursor, rfl⟩, fun h => by cases h⟩
    have hgood : (scanRules cfg true last).Good (Pool.init (w, [])) (w, []) :=
      .init rfl hi fun _ => trivial
    obtain ⟨t, ht, _⟩ := hgood.exec (fun _ _ _ => trivial) scan_starts hq
    obtain ⟨cursor, hstands, hscanned⟩ := ht.inv.scanned
    have hworld : t = q.world := ht.world
    rw [← hworld]
    exact ⟨cursor, hstands, hscanned, hscanned.once⟩

/-- The cursor stands at the first of forty blocks without logs. -/
def Sample.quietChain : World where
  cursor := fun _ => some 0
  base := { blocks := List.replicate 40 [] }

theorem quiet_chain_scanned : ∃ q,
    (scanning Sample.config false).exec
      ⟨(Sample.quietChain, []), fun _ => scanWindows Sample.config 25 25 1⟩
      (List.replicate 9 (.step () .done)) = some q ∧
    q.world.1.cursor .base = some 25 ∧ Complete 0 q.world.2 25 := by
  have hreturned : ((scanning Sample.config false).exec
      ⟨(Sample.quietChain, []), fun _ => scanWindows Sample.config 25 25 1⟩
      (List.replicate 9 (.step () .done))).map (fun q => (q.slot ()).returned) = some true := rfl
  obtain ⟨q, hq, hret⟩ := Option.map_eq_some_iff.mp hreturned
  refine ⟨q, hq, ?_⟩
  refine (@windows_scanned Sample.config Sample.quietChain 0 25 (by decide) rfl).2.2.1 _ q ?_ rfl hq hret
  intro e he
  cases List.eq_of_mem_replicate he
  rfl

end FairBridge

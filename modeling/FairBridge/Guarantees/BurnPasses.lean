import FairBridge.Guarantees.BurnReleases
import FairBridge.Guarantees.WfairLedger

/-!
One pass of the watcher over a burn log: when it leaves exactly one row behind, and what
becomes of the burn if the node, the database or a queue raises on the way.
-/

namespace FairBridge
open Store Async

/-- No row is on file for the burn. -/
def BurnLog.unfiled (l : BurnLog) (w : World) : Prop := ∀ d ∈ w.withdrawals.docs, d.key ≠ l.key

/-- What counts against the daily cap of an address. -/
def World.dailySats (w : World) (fromBaseAddress : Address) : Int :=
  ((w.withdrawals.docs.filter (recentWithdrawal w.now fromBaseAddress)).map
    WithdrawalDoc.amountSats).sum

/-- The burn goes to an address of the node's and stays within the cap. -/
def BurnLog.releasable (l : BurnLog) (capSats : Int) (w : World) : Bool :=
  w.fair.isvalid l.faircoinAddress &&
    decide (w.dailySats l.burn.source + l.amountSats ≤ capSats)

theorem BurnLog.releasable_iff {l : BurnLog} {capSats : Int} {w : World} :
    l.releasable capSats w = true ↔ w.fair.isvalid l.faircoinAddress = true ∧
      w.dailySats l.burn.source + l.amountSats ≤ capSats := by
  simp [releasable]

section Alone
variable {ι : Type} {f : Faults ι} {i : ι} {cfg : Config} {l : BurnLog} {w : World}

theorem BurnLog.unfiled_iff :
    l.unfiled w ↔ pick (fun d => d.baseBurnTxHash == l.txHash && d.logIndex == l.logIndex) none
      w.withdrawals.docs = none := by
  simp [unfiled, pick, WithdrawalDoc.key, BurnLog.key]

/-- The first row of a burn is refused only for want of a destination. -/
theorem effect_createFirst {row : Option ObjectId} {d : WithdrawalDoc} (hfree : l.unfiled w)
    (hkey : d.key = l.key) :
    effect row (.withdrawal (.create d)) w = if d.destinationFairAddress = "" then
        some (.error refusals.invalid, w)
      else some (.ok { d with id := w.withdrawals.nextId, createdAt := w.now },
        w.insertWithdrawal d) := by
  have hclash : w.withdrawals.clashes
      (withdrawalSchema.assign w.withdrawals.nextId w.now d) = false := by
    cases hc : w.withdrawals.clashes
        (withdrawalSchema.assign w.withdrawals.nextId w.now d) with
    | false => rfl
    | true =>
        obtain ⟨e, he, hek⟩ := Collection.clashes_true hc
        exact absurd ((Option.some.inj hek).trans hkey) (hfree e he)
  by_cases hdest : d.destinationFairAddress = ""
  · have hcreate : w.withdrawals.create refusals w.now d =
        (.error refusals.invalid, w.withdrawals) :=
      if_pos (by simpa [withdrawalSchema] using hdest)
    simp only [effect, Query.run, hcreate, if_pos hdest]
  · have hvalid : ¬ withdrawalSchema.valid d = false := by simpa [withdrawalSchema] using hdest
    have hcreate : w.withdrawals.create refusals w.now d =
        (.ok (withdrawalSchema.assign w.withdrawals.nextId w.now d),
          w.withdrawals.insert w.now d) := by
      rw [Collection.create, if_neg hvalid, hclash, if_neg Bool.false_ne_true]
    simp only [effect, Query.run, hcreate, if_neg hdest]
    rfl

theorem alone_alert (message : String) :
    (service cfg f).alone i (alert cfg message) w = some (.ok (), w) := by
  rw [alert]
  split <;> rfl

theorem alone_refuseBurn (hfree : l.unfiled w) (reason : String) :
    (service cfg f).alone i (refuseBurn cfg l reason) w =
      if l.faircoinAddress = "" then some (.error refusals.invalid, w)
      else some (.ok (), w.insertWithdrawal l.refused) := by
  have hrow : effect (f.row i) (.withdrawal (.create l.refused)) w =
      if l.faircoinAddress = "" then some (.error refusals.invalid, w)
      else some (.ok _, w.insertWithdrawal l.refused) :=
    effect_createFirst hfree rfl
  split
  · rename_i hdest
    exact alone_raised (hrow.trans (if_pos hdest))
  · rename_i hdest
    rw [refuseBurn, alone_answered (hrow.trans (if_neg hdest)), alone_alert]

theorem alone_confirmBurn (hfree : l.unfiled w) :
    (service cfg f).alone i (confirmBurn cfg l) w =
      match applyFee l.amountSats cfg.bridgeFeeBps with
      | .error e => some (.error e, w)
      | .ok sats =>
          if l.faircoinAddress = "" then some (.error refusals.invalid, w)
          else some (.ok (), (w.insertWithdrawal (l.confirmed sats)).enqueueRelease
            (l.job w.withdrawals.nextId sats)) := by
  rw [confirmBurn]
  cases hfee : applyFee l.amountSats cfg.bridgeFeeBps with
  | error e => rfl
  | ok sats =>
      have hrow : effect (f.row i) (.withdrawal (.create (l.confirmed sats))) w =
          if l.faircoinAddress = "" then some (.error refusals.invalid, w)
          else some (.ok _, w.insertWithdrawal (l.confirmed sats)) :=
        effect_createFirst hfree rfl
      simp only
      split
      · rename_i hdest
        exact alone_raised (hrow.trans (if_pos hdest))
      · rename_i hdest
        exact alone_answered (hrow.trans (if_neg hdest))

theorem effect_findUnfiled {row : Option ObjectId} (hfree : l.unfiled w) :
    effect row (.withdrawal (.findOne
      (fun d => d.baseBurnTxHash == l.txHash && d.logIndex == l.logIndex) none)) w =
        some (.ok none, w) := by
  simp only [effect, Query.run, BurnLog.unfiled_iff.mp hfree]

theorem alone_recordBurn (hfree : l.unfiled w) {capSats : Int}
    (hcap : cfg.perAddressDailyCapFair.toSats = .ok capSats) :
    ∃ reason, (service cfg f).alone i (recordBurn cfg l) w = (service cfg f).alone i
      (if l.releasable capSats w then confirmBurn cfg l else refuseBurn cfg l reason) w := by
  have hvalidate : effect (f.row i) (.validateAddress l.faircoinAddress) w =
      some (.ok (w.fair.isvalid l.faircoinAddress), w) := rfl
  rw [recordBurn, alone_answered (effect_findUnfiled hfree), hcap]
  cases hvalid : w.fair.isvalid l.faircoinAddress with
  | false =>
      rw [hvalid] at hvalidate
      refine ⟨"invalid faircoin address in bridge burn", (alone_attempted hvalidate).trans ?_⟩
      simp only [BurnLog.releasable, hvalid, Bool.false_and, Bool.false_eq_true, if_false]
  | true =>
      rw [hvalid] at hvalidate
      refine ⟨"withdrawal exceeds per-address daily cap", (alone_attempted hvalidate).trans ?_⟩
      have hdaily : (service cfg f).alone i (sumDailyWithdrawalSatsForAddress l.burn.source >>=
          fun dailySoFar => if dailySoFar + l.amountSats > capSats then
            refuseBurn cfg l "withdrawal exceeds per-address daily cap" else confirmBurn cfg l) w =
          (service cfg f).alone i (if w.dailySats l.burn.source + l.amountSats > capSats then
            refuseBurn cfg l "withdrawal exceeds per-address daily cap" else confirmBurn cfg l) w :=
        rfl
      refine hdaily.trans ?_
      simp only [BurnLog.releasable, hvalid, Bool.true_and, decide_eq_true_eq]
      by_cases hroom : w.dailySats l.burn.source + l.amountSats ≤ capSats
      · rw [if_pos hroom, if_neg (Int.not_lt.mpr hroom)]
      · rw [if_neg hroom, if_pos (Int.not_le.mp hroom)]

theorem alone_filed (hfiled : ¬ l.unfiled w) :
    (service cfg f).alone i (recordBurn cfg l) w = some (.ok (), w) := by
  cases hpick : pick (fun d => d.baseBurnTxHash == l.txHash && d.logIndex == l.logIndex) none
      w.withdrawals.docs with
  | none => exact absurd (BurnLog.unfiled_iff.mpr hpick) hfiled
  | some d =>
      have hfind : effect (f.row i) (.withdrawal (.findOne
          (fun d => d.baseBurnTxHash == l.txHash && d.logIndex == l.logIndex) none)) w =
            some (.ok (some d), w) := by
        simp only [effect, Query.run, hpick]
      rw [recordBurn, alone_answered hfind]
      rfl

theorem applyFee_error {amount : Int} {feeBps : JsNumber} {e : JsError}
    (h : applyFee amount feeBps = .error e) (fee : Int) : feeBps.toBigInt ≠ .ok fee := by
  intro hfee
  rw [JsNumber.toBigInt_ok hfee, applyFee_eq] at h
  cases h

/-- The policy numbers that a pass over the burn asks for convert. -/
def BurnLog.priced (cfg : Config) (l : BurnLog) (w : World) : Prop :=
  ∃ capSats, cfg.perAddressDailyCapFair.toSats = .ok capSats ∧
    (l.releasable capSats w = true → ∃ fee, cfg.bridgeFeeBps.toBigInt = .ok fee)

/-- A pass over a burn that has no row writes its row, or raises and writes none. -/
theorem alone_unfiled (hfree : l.unfiled w) :
    (l.faircoinAddress ≠ "" ∧ l.priced cfg w ∧
      ∃ d w', (service cfg f).alone i (recordBurn cfg l) w = some (.ok (), w') ∧
        d.key = l.key ∧ w'.withdrawals = w.withdrawals.insert w.now d) ∨
    ¬ (l.faircoinAddress ≠ "" ∧ l.priced cfg w) ∧
      ∃ e, (service cfg f).alone i (recordBurn cfg l) w = some (.error e, w) := by
  cases hcap : cfg.perAddressDailyCapFair.toSats with
  | error e =>
      refine Or.inr ⟨?_, e, ?_⟩
      · intro h
        obtain ⟨_, cap, hok, _⟩ := h
        cases hcap.symm.trans hok
      · rw [recordBurn, alone_answered (effect_findUnfiled hfree), hcap]
        rfl
  | ok capSats =>
      obtain ⟨reason, hrun⟩ := alone_recordBurn (f := f) (i := i) hfree hcap
      rw [hrun]
      split
      · rename_i hrel
        rw [alone_confirmBurn hfree]
        cases hfee : applyFee l.amountSats cfg.bridgeFeeBps with
        | error e =>
            refine Or.inr ⟨?_, e, rfl⟩
            intro h
            obtain ⟨_, cap, hok, hconv⟩ := h
            cases hcap.symm.trans hok
            obtain ⟨fee, hfee'⟩ := hconv hrel
            exact applyFee_error hfee fee hfee'
        | ok sats =>
            by_cases hdest : l.faircoinAddress = ""
            · exact Or.inr ⟨fun h => h.1 hdest, refusals.invalid, if_pos hdest⟩
            · obtain ⟨fee, hbps, _⟩ := applyFee_ok hfee
              have hconv : cfg.bridgeFeeBps.toBigInt = .ok fee :=
                hbps ▸ JsNumber.toBigInt_int fee
              exact Or.inl ⟨hdest, ⟨capSats, hcap, fun _ => ⟨fee, hconv⟩⟩, l.confirmed sats, _,
                if_neg hdest, rfl, rfl⟩
      · rw [alone_refuseBurn hfree]
        by_cases hdest : l.faircoinAddress = ""
        · exact Or.inr ⟨fun h => h.1 hdest, refusals.invalid, if_pos hdest⟩
        · exact Or.inl ⟨hdest, ⟨capSats, hcap, fun h => absurd h ‹_›⟩, l.refused, _,
            if_neg hdest, rfl, rfl⟩

/-- The first row of a burn is the only one. -/
theorem filed_once {d : WithdrawalDoc} (hfree : l.unfiled w) (hkey : d.key = l.key) :
    ∃! e, e ∈ (w.withdrawals.insert w.now d).docs ∧ e.key = l.key := by
  refine ⟨withdrawalSchema.assign w.withdrawals.nextId w.now d,
    ⟨List.mem_append_right _ (List.mem_singleton.mpr rfl), hkey⟩, ?_⟩
  intro e he
  cases List.mem_append.mp he.1 with
  | inl hold => exact absurd he.2 (hfree e hold)
  | inr hnew => exact List.mem_singleton.mp hnew

end Alone

/-- A pass in good order leaves exactly one row for its burn if and only if there is one
already, or there is none, the bytes spell a destination, and the policy numbers that are
asked for convert. -/
theorem burn_filed_once_iff (cfg : Config) (w : World) {log : Log} {l : BurnLog}
    (hlog : log.burnLog = some l) :
    (∃ w', (service cfg calm).alone () (processLog cfg log) w = some (.ok (), w') ∧
      ∃! d, d ∈ w'.withdrawals.docs ∧ d.key = l.key) ↔
    (∃! d, d ∈ w.withdrawals.docs ∧ d.key = l.key) ∨
      l.unfiled w ∧ l.faircoinAddress ≠ "" ∧ l.priced cfg w := by
  simp only [processLog, hlog]
  by_cases hfree : l.unfiled w
  · have hnone : ¬ ∃! d, d ∈ w.withdrawals.docs ∧ d.key = l.key := by
      intro h
      obtain ⟨d, hd, _⟩ := h
      exact hfree d hd.1 hd.2
    refine ⟨fun h => Or.inr ⟨hfree, ?_⟩, fun h => ?_⟩
    · obtain ⟨w', hrun, _⟩ := h
      cases alone_unfiled (f := calm) (i := ()) hfree with
      | inl hfiled => exact ⟨hfiled.1, hfiled.2.1⟩
      | inr hstuck =>
          obtain ⟨_, e, hraised⟩ := hstuck
          cases hraised.symm.trans hrun
    · cases alone_unfiled (f := calm) (i := ()) hfree with
      | inl hfiled =>
          obtain ⟨_, _, d, w', hrun, hkey, hrows⟩ := hfiled
          exact ⟨w', hrun, hrows ▸ filed_once hfree hkey⟩
      | inr hstuck => exact absurd (h.resolve_left hnone).2 hstuck.1
  · rw [alone_filed hfree]
    refine ⟨fun h => Or.inl ?_, fun h => ?_⟩
    · obtain ⟨w', hrun, hone⟩ := h
      cases hrun
      exact hone
    · exact ⟨w, rfl, h.resolve_right fun h => hfree h.1⟩

theorem first_burn_filed_once :
    Sample.log.burnLog = some Sample.burnLog ∧ ∃ w',
      (service Sample.config calm).alone () (processLog Sample.config Sample.log)
        Sample.burnWorld = some (.ok (), w') ∧
      ∃! d, d ∈ w'.withdrawals.docs ∧ d.key = Sample.burnLog.key :=
  ⟨rfl, (burn_filed_once_iff Sample.config Sample.burnWorld rfl).mpr
    (Or.inr ⟨by simp [BurnLog.unfiled, Sample.burnWorld, Collection.empty], by decide +kernel,
      10000000000, by decide +kernel, fun _ => ⟨30, by decide +kernel⟩⟩)⟩

namespace Sample

/-- A burn whose address bytes are all spaces. -/
def blankLog : Log := ⟨some ⟨9⟩, some 0, some 1, some ⟨⟨7⟩, 1, List.replicate 26 0x20⟩⟩

/-- The node takes no empty address. -/
def nodeWorld : World := { fair := { isvalid := fun address => address != "" } }

end Sample

/-- The contract emits such a burn, and the pass over it raises and writes no row. -/
theorem blank_burn_raises : ∃ l, Sample.blankLog.burnLog = some l ∧
    (Wfair.bridgeBurn Wfair.Sample.bases 7 l.burn.amount l.burn.faircoinAddress
      { Wfair.Sample.bases.deployed with balances := fun _ => 1, supply := 1 }).map Prod.snd =
        some [.bridgeBurn 7 l.burn.amount l.burn.faircoinAddress] ∧
    (∃ e, (service Sample.config calm).alone () (processLog Sample.config Sample.blankLog)
      Sample.nodeWorld = some (.error e, Sample.nodeWorld)) ∧
    ∀ d ∈ Sample.nodeWorld.withdrawals.docs, d.key ≠ l.key := by
  have hfree : BurnLog.unfiled ⟨⟨9⟩, 0, 1, ⟨⟨7⟩, 1, List.replicate 26 0x20⟩⟩ Sample.nodeWorld := by
    simp [BurnLog.unfiled, Sample.nodeWorld, Collection.empty]
  refine ⟨_, rfl, by decide +kernel, ?_, hfree⟩
  cases alone_unfiled (f := calm) (i := ()) hfree with
  | inl hfiled => exact absurd (by decide +kernel) hfiled.1
  | inr hstuck => exact hstuck.2

end FairBridge

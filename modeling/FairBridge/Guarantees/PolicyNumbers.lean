import FairBridge.Worker.BaseWatcher
import FairBridge.Worker.FairWatcher

/-!
The policy numbers. The schema takes every number; the watchers turn most of them into
bigints, long after the start, and take the fee for a part of 10000.
-/

namespace FairBridge
open Store Async

section Sound
variable {cfg : Config}

theorem call_sound {β : Type} {op : Op β} : (call op).Sound := .request

theorem alert_sound (message : String) : (alert cfg message).Sound := by
  rw [alert]
  split
  · trivial
  · exact .tryCatch call_sound

/-- One round of the watcher of the Base chain, before its errors are caught. -/
def baseWatcherRound (cfg : Config) : Promise Unit := do
  reconcileOrphanWithdrawals
  let tip ← call .getBlockNumber
  let last ← call (.cursorUpsert .base (tip - initialBackfillBlocks : Nat))
  let safeTip := tip - (← Promise.of cfg.baseConfirmations.toBigInt)
  scanWindows cfg safeTip (safeTip - last).toNat (last + 1)

theorem baseWatcherTick_eq (cfg : Config) :
    baseWatcherTick cfg = tryCatch (baseWatcherRound cfg) fun _ => pure () := rfl

/-- Wherever their requests are answered, the watchers compute what they need, and the fee
takes a part of every amount. -/
structure PolicySound (cfg : Config) : Prop where
  block : ∀ height tip, (processBlock cfg height tip).Sound
  log : ∀ log, (processLog cfg log).Sound
  round : (baseWatcherRound cfg).Sound
  fee : ∀ a, 0 ≤ a → ∃ r, applyFee a cfg.bridgeFeeBps = .ok r ∧ 0 ≤ r ∧ r ≤ a

/-- The policy numbers are what the watchers take them for. -/
structure PolicyInRange (cfg : Config) : Prop where
  maxTvl : ∃ n, cfg.maxTvlFair.toBigInt = .ok n
  minDeposit : ∃ q, cfg.minDepositFair.timesSatsPerFair = .finite q
  dailyCap : ∃ q, cfg.perAddressDailyCapFair.timesSatsPerFair = .finite q
  confirmations : ∃ n, cfg.baseConfirmations.toBigInt = .ok n
  fee : ∃ n, cfg.bridgeFeeBps.toBigInt = .ok n ∧ 0 ≤ n ∧ n ≤ bpsDenom

theorem PolicyInRange.applyFee (h : PolicyInRange cfg) (a : Int) :
    ∃ fee r, FairBridge.applyFee a cfg.bridgeFeeBps = .ok r ∧
      r = bigIntDiv (a * (bpsDenom - fee)) bpsDenom ∧ 0 ≤ fee ∧ fee ≤ bpsDenom := by
  obtain ⟨fee, hfee, h0, h1⟩ := h.fee
  rw [JsNumber.toBigInt_ok hfee, applyFee_eq]
  exact ⟨fee, _, rfl, rfl, h0, h1⟩

section Base

theorem recordBurn_sound (h : PolicyInRange cfg) (l : BurnLog) : (recordBurn cfg l).Sound := by
  obtain ⟨capSats, hcap⟩ := JsNumber.toSats_ok_iff.mpr h.dailyCap
  obtain ⟨_, sats, hsats, _⟩ := h.applyFee l.amountSats
  have hrefuse : ∀ reason, (refuseBurn cfg l reason).Sound :=
    fun reason => .bind call_sound fun _ => alert_sound reason
  have hconfirm : (confirmBurn cfg l).Sound :=
    Program.Sound.bind_ofExcept_iff.mpr ⟨sats, hsats, .bind call_sound fun _ => call_sound⟩
  refine .bind call_sound fun a => ?_
  cases a with
  | some _ => trivial
  | none =>
      refine Program.Sound.bind_ofExcept_iff.mpr ⟨capSats, hcap, ?_⟩
      refine .bind (.tryCatch call_sound) fun valid => ?_
      split
      · refine .bind (.bind call_sound fun _ => .bind call_sound fun _ => trivial) fun _ => ?_
        split
        · exact hrefuse _
        · exact hconfirm
      · exact hrefuse _

theorem processLog_sound (h : PolicyInRange cfg) (log : Log) : (processLog cfg log).Sound := by
  rw [processLog]
  split
  · exact recordBurn_sound h _
  · trivial

theorem processLogs_sound (h : PolicyInRange cfg) (logs : List Log) :
    (processLogs cfg logs).Sound := by
  induction logs with
  | nil => trivial
  | cons log logs ih =>
      refine .bind call_sound fun aborted => ?_
      split
      · trivial
      · exact .bind (processLog_sound h log) fun _ => ih

theorem scanWindows_sound (h : PolicyInRange cfg) (safeTip : Int) (n : Nat) (windowFrom : Int) :
    (scanWindows cfg safeTip n windowFrom).Sound := by
  induction n generalizing windowFrom with
  | zero => trivial
  | succ n ih =>
      rw [scanWindows]
      split
      · refine .bind call_sound fun aborted => ?_
        split
        · trivial
        · refine .bind call_sound fun logs => .bind (processLogs_sound h logs) fun _ => ?_
          exact .bind call_sound fun _ => ih _
      · trivial

theorem enqueueReleases_sound (orphans : List WithdrawalDoc) :
    (enqueueReleases orphans).Sound := by
  induction orphans with
  | nil => trivial
  | cons orphan orphans ih => exact .bind call_sound fun _ => ih

theorem baseWatcherRound_sound (h : PolicyInRange cfg) : (baseWatcherRound cfg).Sound := by
  obtain ⟨n, hn⟩ := h.confirmations
  refine .bind (.bind call_sound fun _ => .bind call_sound enqueueReleases_sound) fun _ => ?_
  refine .bind call_sound fun tip => .bind call_sound fun last => ?_
  exact Program.Sound.bind_ofExcept_iff.mpr ⟨n, hn, scanWindows_sound h _ _ _⟩

end Base

section Fair

theorem refuseDeposit_sound (v : ScannedVout) (m : MatchedDeposit) (origin : DepositDoc)
    (reason : String) : (refuseDeposit cfg v m origin reason).Sound := by
  refine .bind ?_ fun _ => alert_sound reason
  rw [persistTerminalDeposit]
  split
  · exact call_sound
  · exact .bind call_sound fun _ => trivial

theorem readSupplyAndInFlight_sound : readSupplyAndInFlight.Sound := by
  have hflight : sumInFlightWei.Sound := .bind call_sound fun _ => trivial
  refine .bind call_sound fun first => ?_
  split
  · exact .bind call_sound fun _ => .bind hflight fun _ => trivial
  · exact .bind hflight fun _ => .bind call_sound fun _ => trivial

theorem confirmDeposit_sound (v : ScannedVout) (m : MatchedDeposit) (origin : DepositDoc)
    (postFeeWei : Int) : (confirmDeposit v m origin postFeeWei).Sound := by
  rw [confirmDeposit]
  split
  · refine .bind call_sound fun updated => ?_
    cases updated <;> trivial
  · exact .tryCatch (.bind call_sound fun _ => trivial)

theorem creditDeposit_sound (v : ScannedVout) (m : MatchedDeposit) (origin : DepositDoc)
    (postFeeWei maxTvlWei : Int) :
    (creditDeposit cfg v m origin postFeeWei maxTvlWei).Sound := by
  refine .bind readSupplyAndInFlight_sound fun reads => ?_
  obtain ⟨supply, inFlight⟩ := reads
  simp only
  split
  · exact refuseDeposit_sound v m origin _
  · refine .bind (confirmDeposit_sound v m origin postFeeWei) fun confirmed => ?_
    cases confirmed with
    | none => trivial
    | some id => exact call_sound

theorem processMatch_sound (h : PolicyInRange cfg) (v : ScannedVout) (m : MatchedDeposit) :
    (processMatch cfg v m).Sound := by
  obtain ⟨_, wei, hwei, _⟩ := h.applyFee (m.amountSats * satsToWei)
  obtain ⟨minSats, hmin⟩ := JsNumber.toSats_ok_iff.mpr h.minDeposit
  obtain ⟨capSats, hcap⟩ := JsNumber.toSats_ok_iff.mpr h.dailyCap
  obtain ⟨maxTvl, htvl⟩ := h.maxTvl
  refine Program.Sound.bind_ofExcept_iff.mpr ⟨wei, hwei, ?_⟩
  refine Program.Sound.bind_ofExcept_iff.mpr ⟨minSats, hmin, ?_⟩
  refine Program.Sound.bind_ofExcept_iff.mpr ⟨capSats, hcap, ?_⟩
  refine Program.Sound.bind_ofExcept_iff.mpr ⟨maxTvl, htvl, ?_⟩
  cases m.origin with
  | none => exact .bind call_sound fun _ => alert_sound _
  | some origin =>
      simp only
      split
      · exact refuseDeposit_sound v m origin _
      · refine .bind (.bind call_sound fun _ => .bind call_sound fun _ => trivial) fun _ => ?_
        split
        · exact refuseDeposit_sound v m origin _
        · exact creditDeposit_sound v m origin _ _

theorem matchVout_sound (v : ScannedVout) : (matchVout v).Sound := by
  rw [matchVout]
  split
  · trivial
  · refine .bind call_sound fun known => ?_
    split
    · refine .bind call_sound fun pending => ?_
      cases pending with
      | some _ => trivial
      | none => exact .bind call_sound fun _ => trivial
    · trivial

theorem processVout_sound (h : PolicyInRange cfg) (v : ScannedVout) :
    (processVout cfg v).Sound := by
  refine .bind (matchVout_sound v) fun m => ?_
  cases m with
  | none => trivial
  | some m =>
      refine .bind call_sound fun row => ?_
      cases row with
      | some _ => trivial
      | none => exact processMatch_sound h v m

theorem processBlock_sound (h : PolicyInRange cfg) (height tip : Nat) :
    (processBlock cfg height tip).Sound := by
  refine .bind call_sound fun block => ?_
  induction block.vouts with
  | nil => trivial
  | cons vout vouts ih => exact .bind (processVout_sound h _) fun _ => ih

end Fair

theorem PolicyInRange.sound (h : PolicyInRange cfg) : PolicySound cfg where
  block := processBlock_sound h
  log := processLog_sound h
  round := baseWatcherRound_sound h
  fee a ha := by
    obtain ⟨fee, r, hr, rfl, h0, h1⟩ := h.applyFee a
    exact ⟨_, hr, bigIntDiv_fee_le ha h0 h1⟩

/-- A vout of a block, to an address. -/
def paidVout : TxVout := { value := 1, n := 0, address := some "fAddress" }

/-- A vout that is matched asks for all the policy numbers but one. -/
theorem PolicySound.processMatch (h : PolicySound cfg) :
    (processMatch cfg ⟨"txid", paidVout, 0, 0⟩
      ⟨none, none, "fAddress", fairValueToSats 1⟩).Sound := by
  have hvouts : (processVouts cfg 0 0 [("txid", paidVout)]).Sound :=
    h.block 0 0 { tx := [⟨"txid", [paidVout]⟩] }
  have hvout : (processVout cfg ⟨"txid", paidVout, 0, 0⟩).Sound := hvouts.of_bind
  have haddr : voutAddress paidVout = some "fAddress" := by decide +kernel
  simp only [processVout, matchVout, haddr] at hvout
  exact hvout true none none none

theorem PolicySound.conversions (h : PolicySound cfg) :
    (∃ fee, cfg.bridgeFeeBps.toBigInt = .ok fee) ∧ (∃ n, cfg.minDepositFair.toSats = .ok n) ∧
      (∃ n, cfg.perAddressDailyCapFair.toSats = .ok n) ∧
      ∃ n, cfg.maxTvlFair.toBigInt = .ok n := by
  obtain ⟨wei, hwei, hrest⟩ := Program.Sound.bind_ofExcept_iff.mp h.processMatch
  obtain ⟨minSats, hmin, hrest⟩ := Program.Sound.bind_ofExcept_iff.mp hrest
  obtain ⟨capSats, hcap, hrest⟩ := Program.Sound.bind_ofExcept_iff.mp hrest
  obtain ⟨maxTvl, htvl, _⟩ := Program.Sound.bind_ofExcept_iff.mp hrest
  obtain ⟨fee, hfee, _⟩ := applyFee_ok hwei
  exact ⟨⟨fee, hfee ▸ JsNumber.toBigInt_int fee⟩, ⟨minSats, hmin⟩, ⟨capSats, hcap⟩,
    ⟨maxTvl, htvl⟩⟩

/-- Of an amount of 10000 the fee's own part is left out. -/
theorem PolicySound.fee_range (h : PolicySound cfg) {fee : Int}
    (hfee : cfg.bridgeFeeBps.toBigInt = .ok fee) : 0 ≤ fee ∧ fee ≤ bpsDenom := by
  obtain ⟨r, hr, h0, h1⟩ := h.fee bpsDenom (by decide)
  rw [JsNumber.toBigInt_ok hfee, applyFee_eq, bigIntDiv,
    Int.mul_tdiv_cancel_left _ (by decide)] at hr
  cases hr
  omega

theorem PolicySound.inRange (h : PolicySound cfg) : PolicyInRange cfg := by
  obtain ⟨⟨fee, hfee⟩, hmin, hcap, htvl⟩ := h.conversions
  have hround : (Program.bind (Program.ofExcept cfg.baseConfirmations.toBigInt) fun n =>
      scanWindows cfg (0 - n) (0 - n - 0).toNat (0 + 1)).Sound := h.round 0 [] 0 0
  obtain ⟨n, hn, _⟩ := Program.Sound.bind_ofExcept_iff.mp hround
  exact ⟨htvl, JsNumber.toSats_ok_iff.mp hmin, JsNumber.toSats_ok_iff.mp hcap, ⟨n, hn⟩,
    ⟨fee, hfee, h.fee_range hfee⟩⟩

end Sound

/-- The policy variables are set to numbers in range, or left out. -/
structure PolicyEnv.InRange (env : PolicyEnv) : Prop where
  maxTvl : ∃ n : Int, coerceNumber (.finite 1000) env.maxTvlFair = some (.finite n)
  minDeposit : ∃ x q, coerceNumber (.finite 10) env.minDepositFair = some x ∧
    x.timesSatsPerFair = .finite q
  dailyCap : ∃ x q, coerceNumber (.finite 100) env.perAddressDailyCapFair = some x ∧
    x.timesSatsPerFair = .finite q
  confirmations : ∃ n : Int, coerceNumber (.finite 20) env.baseConfirmations = some (.finite n)
  fee : ∃ n : Int, coerceNumber (.finite 30) env.bridgeFeeBps = some (.finite n) ∧
    0 ≤ n ∧ n ≤ bpsDenom

theorem policyInRange_iff {env : PolicyEnv} {rest cfg : Config}
    (hparse : configSchemaBase env rest = some cfg) : PolicyInRange cfg ↔ env.InRange := by
  obtain ⟨maxTvl, htvl, hparse⟩ := Option.bind_eq_some_iff.mp hparse
  obtain ⟨minDeposit, hmin, hparse⟩ := Option.bind_eq_some_iff.mp hparse
  obtain ⟨fee, hfee, hparse⟩ := Option.bind_eq_some_iff.mp hparse
  obtain ⟨_, _, hparse⟩ := Option.bind_eq_some_iff.mp hparse
  obtain ⟨confirmations, hconf, hparse⟩ := Option.bind_eq_some_iff.mp hparse
  obtain ⟨dailyCap, hcap, hparse⟩ := Option.bind_eq_some_iff.mp hparse
  cases hparse
  constructor
  · intro h
    obtain ⟨n, hn⟩ := h.maxTvl
    obtain ⟨c, hc⟩ := h.confirmations
    obtain ⟨p, hp⟩ := h.minDeposit
    obtain ⟨q, hq⟩ := h.dailyCap
    obtain ⟨b, hb, hrange⟩ := h.fee
    exact ⟨⟨n, htvl.trans (congrArg some (JsNumber.toBigInt_ok hn))⟩, ⟨_, p, hmin, hp⟩,
      ⟨_, q, hcap, hq⟩, ⟨c, hconf.trans (congrArg some (JsNumber.toBigInt_ok hc))⟩,
      ⟨b, hfee.trans (congrArg some (JsNumber.toBigInt_ok hb)), hrange⟩⟩
  · intro h
    obtain ⟨n, hn⟩ := h.maxTvl
    obtain ⟨c, hc⟩ := h.confirmations
    obtain ⟨x, p, hx, hp⟩ := h.minDeposit
    obtain ⟨y, q, hy, hq⟩ := h.dailyCap
    obtain ⟨b, hb, hrange⟩ := h.fee
    cases htvl.symm.trans hn
    cases hconf.symm.trans hc
    cases hmin.symm.trans hx
    cases hcap.symm.trans hy
    cases hfee.symm.trans hb
    exact ⟨⟨n, JsNumber.toBigInt_int n⟩, ⟨p, hp⟩, ⟨q, hq⟩, ⟨c, JsNumber.toBigInt_int c⟩,
      ⟨b, JsNumber.toBigInt_int b, hrange⟩⟩

/-- In every environment that the schema accepts, the policy arithmetic of the watchers
computes and the fee takes a part of every amount if and only if the numbers are in range. -/
theorem policy_sound_iff {env : PolicyEnv} {rest cfg : Config}
    (hparse : configSchemaBase env rest = some cfg) : PolicySound cfg ↔ env.InRange :=
  Iff.trans ⟨PolicySound.inRange, PolicyInRange.sound⟩ (policyInRange_iff hparse)

/-- Where no policy variable is set the defaults are in range. -/
theorem default_policy_sound : ∃ cfg, configSchemaBase {} {} = some cfg ∧ PolicySound cfg := by
  refine ⟨_, rfl, (@policy_sound_iff {} {} _ rfl).mpr ?_⟩
  exact ⟨⟨1000, rfl⟩, ⟨_, 1000000000, rfl, by decide +kernel⟩,
    ⟨_, 10000000000, rfl, by decide +kernel⟩, ⟨20, rfl⟩, ⟨30, rfl, by decide, by decide⟩⟩

/-- The schema takes a fee of half a basis point, and the first vout that is matched raises. -/
theorem fractional_fee_raises : ∃ cfg,
    configSchemaBase { bridgeFeeBps := some (some (.finite (1 / 2))) } {} = some cfg ∧
    (∀ a, ∃ e, applyFee a cfg.bridgeFeeBps = .error e) ∧ ¬ PolicySound cfg := by
  have hden : (1 / 2 : ℚ).den ≠ 1 := by decide +kernel
  have hraise : ∀ a, ∃ e, applyFee a (.finite (1 / 2)) = .error e := by
    intro a
    rw [applyFee, JsNumber.toBigInt, if_neg hden]
    exact ⟨_, rfl⟩
  refine ⟨_, rfl, hraise, fun h => ?_⟩
  obtain ⟨r, hr, _⟩ := h.fee 0 (Int.le_refl 0)
  obtain ⟨e, he⟩ := hraise 0
  cases hr.symm.trans he

end FairBridge

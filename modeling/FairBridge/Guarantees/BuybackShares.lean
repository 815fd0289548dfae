import FairBridge.Contract.Wfair
import FairBridge.Worker.Buyback

/-!
The three shares of a cycle. They make up what the swap brought, but a share is rounded
down and may be configured as nothing, and the contract burns only positive amounts.
-/

namespace FairBridge
open Async

variable {cfg : Config}

/-- What a cycle does once its swap is settled. -/
def burnPhase (cfg : Config) (admin : Address) (destinations : BurnLabel → String)
    (cycle : BuybackCycleDoc) (swap : Int × BuybackCycleDoc) :
    Promise (Option BuybackCycleDoc) := do
  let shares ← Promise.of (splitByBps swap.1 cfg.buybackBurnBps cfg.buybackTreasuryBps
    cfg.buybackMasternodeBps)
  let liveCycle ← runBurnSteps cfg admin destinations shares swap.2
    [.burn, .treasury, .masternode]
  BuybackCycle.updateById cycle.id { status := some .complete }
  tryCatch (call (.auditLog (.buybackCycle cycle.id admin cycle.usdcAmount swap.1 shares
      liveCycle.swapTxHash liveCycle.txHash)))
    fun _ => alert cfg "buyback audit log write failed"
  BuybackCycle.findById cycle.id

theorem runCycle_eq (admin : Address) (destinations : BurnLabel → String)
    (cycle : BuybackCycleDoc) : runCycle cfg admin destinations cycle =
      (runSwapStep cfg cycle admin).bind (burnPhase cfg admin destinations cycle) := rfl

/-- The amount that a request burns for the bridge, if it does. -/
def Op.burns {β : Type} : Op β → Option Int
  | .sendWallet _ (.bridgeBurn amount _) _ => some amount
  | _ => none

/-- The contract takes the amount. -/
def Op.burnable {β : Type} (op : Op β) : Prop := ∀ amount, op.burns = some amount → 0 < amount

theorem Op.burnable_of_none {β : Type} {op : Op β} (h : op.burns = none) : op.burnable := by
  intro amount ha
  cases h.symm.trans ha

theorem call_burnable {β : Type} {op : Op β} (h : op.burns = none) :
    (call op).Only Op.burnable := .request (Op.burnable_of_none h)

theorem alert_burnable (message : String) : (alert cfg message).Only Op.burnable :=
  alert_only (fun _ => Op.burnable_of_none rfl) message

theorem awaitSuccess_burnable (cycleId : ObjectId) (what : String) (txHash : Hash) :
    (awaitSuccess cfg cycleId what txHash).Only Op.burnable := by
  refine .bind (call_burnable rfl) fun receipt => ?_
  split
  · trivial
  · exact .bind (.bind (call_burnable rfl) fun _ => alert_burnable _) fun _ => trivial

theorem reloadCycle_burnable (cycleId : ObjectId) (vanished : String) :
    (reloadCycle cycleId vanished).Only Op.burnable := by
  refine .bind (call_burnable rfl) fun found => ?_
  cases found <;> trivial

theorem runBurnStep_burnable (admin : Address) (cycle : BuybackCycleDoc) (label : BurnLabel)
    (destination : String) {amount : Int} (h : 0 < amount) :
    (runBurnStep cfg admin cycle label destination amount).Only Op.burnable := by
  rw [runBurnStep]
  split
  · exact awaitSuccess_burnable _ _ _
  · refine .bind (call_burnable rfl) fun _ => .bind (.bind (.ofExcept _) fun _ => ?_) fun txHash =>
      .bind (call_burnable rfl) fun _ => awaitSuccess_burnable _ _ _
    refine .request fun n hn => ?_
    cases hn
    exact h

theorem runBurnSteps_burnable (admin : Address) (destinations : BurnLabel → String)
    {shares : BurnLabel → Int} (h : ∀ label, 0 < shares label) (cycle : BuybackCycleDoc)
    (labels : List BurnLabel) :
    (runBurnSteps cfg admin destinations shares cycle labels).Only Op.burnable := by
  induction labels generalizing cycle with
  | nil => trivial
  | cons label labels ih =>
      exact .bind (runBurnStep_burnable admin cycle label _ (h label)) fun _ =>
        .bind (reloadCycle_burnable _ _) fun liveCycle => ih liveCycle

/-- Steps of a cycle that nothing is on file of yet burn what they are told to. -/
theorem amounts_of_burnable {α : Type} {admin : Address} {destinations : BurnLabel → String}
    {shares : BurnLabel → Int} {cycle : BuybackCycleDoc} {labels : List BurnLabel}
    {k : BuybackCycleDoc → Promise α} (hwallet : requireWallet cfg = .ok ())
    (hopen : ∀ label, cycle.txHash label = none)
    (h : ((runBurnSteps cfg admin destinations shares cycle labels).bind k).Only Op.burnable) :
    ∀ label ∈ labels, 0 < shares label := by
  induction labels with
  | nil => exact fun _ hl => by cases hl
  | cons label labels ih =>
      rw [runBurnSteps, runBurnStep, hopen label, broadcastBridgeBurn, hwallet] at h
      -- the record of the amount, then the broadcast, its hash on file, a receipt, the row
      obtain ⟨_, hsend⟩ := h
      obtain ⟨hburns, hfile⟩ := hsend (.ok ())
      obtain ⟨_, hreceipt⟩ := hfile (.ok ⟨0⟩)
      obtain ⟨_, hreload⟩ := hreceipt (.ok ())
      obtain ⟨_, hrest⟩ := hreload (.ok ⟨true, 0⟩)
      intro l hl
      obtain rfl | hl := List.mem_cons.mp hl
      · exact hburns (shares l) rfl
      · exact ih (hrest (.ok (some cycle))) l hl

/-- The shares of an amount, which is never less than nothing after the other two. -/
theorem splitByBps_ok (hsum : cfg.buybackBurnBps + cfg.buybackTreasuryBps +
    cfg.buybackMasternodeBps = 10000) {wfairAcquired : Int} (h : 0 < wfairAcquired) :
    ∃ shares, splitByBps wfairAcquired cfg.buybackBurnBps cfg.buybackTreasuryBps
        cfg.buybackMasternodeBps = .ok shares ∧
      ((∀ label, 0 < shares label) ↔
        10000 ≤ wfairAcquired * cfg.buybackTreasuryBps ∧
        10000 ≤ wfairAcquired * cfg.buybackMasternodeBps ∧
        (0 < cfg.buybackBurnBps ∨ ¬ (10000 : Int) ∣ wfairAcquired * cfg.buybackTreasuryBps)) := by
  have hparts : wfairAcquired * cfg.buybackBurnBps + wfairAcquired * cfg.buybackTreasuryBps +
      wfairAcquired * cfg.buybackMasternodeBps = wfairAcquired * 10000 := by
    have hsum : (cfg.buybackBurnBps : Int) + cfg.buybackTreasuryBps + cfg.buybackMasternodeBps =
      10000 := by exact_mod_cast hsum
    rw [← mul_add, ← mul_add, hsum]
  have hburn0 : 0 < cfg.buybackBurnBps ↔ 0 < wfairAcquired * cfg.buybackBurnBps := by
    rw [mul_pos_iff_of_pos_left h]
    omega
  have hnn : ∀ n : Nat, 0 ≤ wfairAcquired * n := fun n => by positivity
  have hb := hnn cfg.buybackBurnBps
  have ht := hnn cfg.buybackTreasuryBps
  have hm := hnn cfg.buybackMasternodeBps
  rw [hburn0]
  simp only [splitByBps]
  generalize wfairAcquired * (cfg.buybackBurnBps : Int) = b at *
  generalize wfairAcquired * (cfg.buybackTreasuryBps : Int) = t at *
  generalize wfairAcquired * (cfg.buybackMasternodeBps : Int) = m at *
  have htdiv : bigIntDiv t bpsDenom = t / 10000 := Int.tdiv_eq_ediv_of_nonneg ht
  have hmdiv : bigIntDiv m bpsDenom = m / 10000 := Int.tdiv_eq_ediv_of_nonneg hm
  rw [htdiv, hmdiv, if_neg (by omega)]
  refine ⟨_, rfl, ?_⟩
  constructor
  · intro hpos
    have hburn : 0 < wfairAcquired - t / 10000 - m / 10000 := hpos .burn
    have htreasury : 0 < t / 10000 := hpos .treasury
    have hmasternode : 0 < m / 10000 := hpos .masternode
    omega
  · intro hpos label
    cases label with
    | burn =>
        have hburn : 0 < wfairAcquired - t / 10000 - m / 10000 := by omega
        exact hburn
    | treasury =>
        have htreasury : 0 < t / 10000 := by omega
        exact htreasury
    | masternode =>
        have hmasternode : 0 < m / 10000 := by omega
        exact hmasternode

/-- Whatever is on file of a cycle, all it burns of an amount is more than nothing exactly if
the amount is large enough for the two rounded shares and leaves something for the burn. -/
theorem shares_burnable_iff (hwallet : cfg.bridgeEoaPrivateKey.isSome = true)
    (hsum : cfg.buybackBurnBps + cfg.buybackTreasuryBps + cfg.buybackMasternodeBps = 10000)
    {wfairAcquired : Int} (h : 0 < wfairAcquired) :
    (∀ admin destinations cycle updated,
      (burnPhase cfg admin destinations cycle (wfairAcquired, updated)).Only Op.burnable) ↔
      10000 ≤ wfairAcquired * cfg.buybackTreasuryBps ∧
      10000 ≤ wfairAcquired * cfg.buybackMasternodeBps ∧
      (0 < cfg.buybackBurnBps ∨ ¬ (10000 : Int) ∣ wfairAcquired * cfg.buybackTreasuryBps) := by
  obtain ⟨shares, hshares, hpos⟩ := splitByBps_ok hsum h
  rw [← hpos]
  constructor
  · intro hall label
    have honly := hall ⟨0⟩ (fun _ => "") { usdcAmount := 0 } { usdcAmount := 0 }
    rw [burnPhase, hshares] at honly
    have hsteps : ∀ l ∈ [BurnLabel.burn, .treasury, .masternode], 0 < shares l :=
      amounts_of_burnable (if_pos hwallet) (fun l => by cases l <;> rfl) honly
    cases label <;> exact hsteps _ (by simp)
  · intro hpos admin destinations cycle updated
    refine .bind_ofExcept fun held hheld => ?_
    cases hshares.symm.trans hheld
    refine .bind (runBurnSteps_burnable admin destinations hpos updated _) fun liveCycle => ?_
    exact .bind (call_burnable rfl) fun _ =>
      .bind (.tryCatch (call_burnable rfl) fun _ => alert_burnable _) fun _ => call_burnable rfl

/-- The contract burns nothing for nobody. -/
theorem bridgeBurn_zero {σ : Type} (oz : Wfair.OpenZeppelin σ) (sender : Wfair.Address)
    (faircoinAddress : List UInt8) (s : σ) :
    Wfair.bridgeBurn oz sender 0 faircoinAddress s = none := by
  simp [Wfair.bridgeBurn, guard]

namespace Sample

/-- The shares as they are by default. -/
def sharesConfig : Config := { bridgeEoaPrivateKey := some "key" }

/-- Everything is burned, as the schema allows. -/
def burnAllConfig : Config :=
  { sharesConfig with buybackBurnBps := 10000, buybackTreasuryBps := 0, buybackMasternodeBps := 0 }

end Sample

theorem default_shares_burnable :
    (burnPhase Sample.sharesConfig ⟨0⟩ (fun _ => "") { usdcAmount := 0 }
      (10, { usdcAmount := 0 })).Only Op.burnable :=
  (shares_burnable_iff rfl rfl (by decide)).mpr (by decide) ⟨0⟩ (fun _ => "") { usdcAmount := 0 }
    { usdcAmount := 0 }

/-- A treasury that gets nothing of 1 WFAIR is still to be burned for, and that reverts. -/
theorem empty_share_burned : ∃ shares,
    splitByBps (10 ^ 18) Sample.burnAllConfig.buybackBurnBps
      Sample.burnAllConfig.buybackTreasuryBps Sample.burnAllConfig.buybackMasternodeBps =
      .ok shares ∧ shares .treasury = 0 ∧
    (∀ (σ : Type) (oz : Wfair.OpenZeppelin σ) sender faircoinAddress s,
      Wfair.bridgeBurn oz sender (shares .treasury).toNat faircoinAddress s = none) ∧
    ¬ (burnPhase Sample.burnAllConfig ⟨0⟩ (fun _ => "") { usdcAmount := 0 }
      (10 ^ 18, { usdcAmount := 0 })).Only Op.burnable := by
  refine ⟨_, rfl, rfl, fun σ oz sender faircoinAddress s => bridgeBurn_zero oz sender _ s, ?_⟩
  intro honly
  have hsteps := amounts_of_burnable rfl (fun l => by cases l <;> rfl) honly
  exact absurd (hsteps .treasury (by simp)) (by decide)

/-! ### How an amount is split -/

/-- Either the two rounded shares exceed the amount, or the burn gets what they leave. -/
theorem splitByBps_cases (wfairTotal burnBps treasuryBps masternodeBps : Nat) :
    (wfairTotal < wfairTotal * treasuryBps / 10000 + wfairTotal * masternodeBps / 10000 ∧
      ∃ e, splitByBps wfairTotal burnBps treasuryBps masternodeBps = .error e) ∨
    wfairTotal * treasuryBps / 10000 + wfairTotal * masternodeBps / 10000 ≤ wfairTotal ∧
      ∃ shares, splitByBps wfairTotal burnBps treasuryBps masternodeBps = .ok shares ∧
        shares .burn + wfairTotal * treasuryBps / 10000 + wfairTotal * masternodeBps / 10000 =
          wfairTotal ∧
        shares .treasury = wfairTotal * treasuryBps / 10000 ∧
        shares .masternode = wfairTotal * masternodeBps / 10000 := by
  have hdiv : ∀ n : Nat, bigIntDiv ((wfairTotal : Int) * n) bpsDenom =
      (wfairTotal * n / 10000 : Int) :=
    fun n => Int.tdiv_eq_ediv_of_nonneg (by positivity)
  rw [splitByBps, hdiv, hdiv]
  split
  · exact Or.inl ⟨by omega, _, rfl⟩
  · exact Or.inr ⟨by omega, _, rfl, by simp only; omega, rfl, rfl⟩

theorem splitByBps_raises_iff (wfairTotal burnBps treasuryBps masternodeBps : Nat) :
    (∃ e, splitByBps wfairTotal burnBps treasuryBps masternodeBps = .error e) ↔
      wfairTotal < wfairTotal * treasuryBps / 10000 + wfairTotal * masternodeBps / 10000 := by
  obtain ⟨hlt, he⟩ | ⟨hle, _, hok, _⟩ :=
    splitByBps_cases wfairTotal burnBps treasuryBps masternodeBps
  · exact iff_of_true he hlt
  · refine iff_of_false ?_ (by omega)
    rintro ⟨_, he⟩
    cases hok.symm.trans he

theorem splitByBps_shares {wfairTotal burnBps treasuryBps masternodeBps : Nat}
    {shares : BurnLabel → Int}
    (h : splitByBps wfairTotal burnBps treasuryBps masternodeBps = .ok shares) :
    (∀ label, 0 ≤ shares label) ∧
      shares .burn + shares .treasury + shares .masternode = wfairTotal := by
  obtain ⟨_, _, he⟩ | ⟨hle, _, hok, hburn, htreasury, hmasternode⟩ :=
    splitByBps_cases wfairTotal burnBps treasuryBps masternodeBps
  · cases he.symm.trans h
  · cases hok.symm.trans h
    refine ⟨fun label => ?_, by omega⟩
    cases label <;> omega

/-- The two roundings leave at most two units for the burn beyond its own share. -/
theorem splitByBps_remainder {burnBps treasuryBps masternodeBps : Nat}
    (hsum : burnBps + treasuryBps + masternodeBps = 10000) (wfairTotal : Nat) :
    ∃ shares, splitByBps wfairTotal burnBps treasuryBps masternodeBps = .ok shares ∧
      wfairTotal * burnBps / 10000 ≤ shares .burn ∧
      shares .burn ≤ wfairTotal * burnBps / 10000 + 2 := by
  have hparts : wfairTotal * burnBps + wfairTotal * treasuryBps + wfairTotal * masternodeBps =
      wfairTotal * 10000 := by
    rw [← Nat.mul_add, ← Nat.mul_add, hsum]
  obtain ⟨hlt, _⟩ | ⟨_, shares, hok, hburn, _⟩ :=
    splitByBps_cases wfairTotal burnBps treasuryBps masternodeBps
  · omega
  · have hcast : (wfairTotal * burnBps / 10000 : Int) = (wfairTotal * burnBps / 10000 : Nat) := by
      norm_cast
    exact ⟨shares, hok, by omega, by omega⟩

/-- An amount is split exactly, unless the rounded shares exceed it, which they do under no
configuration that the schema accepts. -/
theorem split_exact :
    (∀ wfairTotal burnBps treasuryBps masternodeBps : Nat,
      ((∃ e, splitByBps wfairTotal burnBps treasuryBps masternodeBps = .error e) ↔
        wfairTotal < wfairTotal * treasuryBps / 10000 + wfairTotal * masternodeBps / 10000) ∧
      ∀ shares, splitByBps wfairTotal burnBps treasuryBps masternodeBps = .ok shares →
        (∀ label, 0 ≤ shares label) ∧
          shares .burn + shares .treasury + shares .masternode = wfairTotal) ∧
    ∀ env bps rest cfg, configSchema env bps rest = some cfg → ∀ wfairTotal : Nat,
      ∃ shares, splitByBps wfairTotal cfg.buybackBurnBps cfg.buybackTreasuryBps
          cfg.buybackMasternodeBps = .ok shares ∧
        wfairTotal * cfg.buybackBurnBps / 10000 ≤ shares .burn ∧
        shares .burn ≤ wfairTotal * cfg.buybackBurnBps / 10000 + 2 := by
  refine ⟨fun wfairTotal burnBps treasuryBps masternodeBps => ⟨?_, ?_⟩, ?_⟩
  · exact splitByBps_raises_iff wfairTotal burnBps treasuryBps masternodeBps
  · exact fun shares h => splitByBps_shares h
  · exact fun env bps rest cfg h wfairTotal =>
      splitByBps_remainder (configSchema_sum h) wfairTotal

/-- Under the default shares 9 units are split without an error, and the burn has at least
its share. -/
theorem default_split_exact : ∃ cfg shares, configSchema {} {} {} = some cfg ∧
    splitByBps 9 cfg.buybackBurnBps cfg.buybackTreasuryBps cfg.buybackMasternodeBps = .ok shares ∧
    9 * cfg.buybackBurnBps / 10000 ≤ shares .burn := by
  obtain ⟨shares, hshares, hle, _⟩ := split_exact.2 {} {} {} _ rfl 9
  exact ⟨_, shares, rfl, hshares, hle⟩

end FairBridge

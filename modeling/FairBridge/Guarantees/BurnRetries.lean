import FairBridge.Async.History
import FairBridge.Guarantees.BurnPasses
import FairBridge.Model.Frame

/-!
Passes over a burn log of which any request may raise, and what is left of the burn when
one pass is as good as the watcher could wish.
-/

namespace FairBridge
open Store Async

/-- A request of the node, the database or a queue. The webhook is none of them, and what
the process reads of its own does not raise. -/
def Op.remote {β : Type} : Op β → Bool
  | .webhook _ => false
  | op => !op.synchronous

/-- Whether a remote request has raised. -/
def noteRaised {β : Type} (op : Op β) (out : Outcome) (w : World) (raised : Bool) : Bool :=
  raised || op.remote && match answer none op out w with
    | some (.error _, _) => true
    | _ => false

/-- Every request may end in every way. -/
def anyhow : Faults Unit := { calm with may := fun _ _ _ _ => true }

/-- A program of the watcher, its requests ending as listed, and whether one raised. -/
def trial (cfg : Config) (p : Promise Unit) (w : World) (raised : Bool) (outs : List Outcome) :
    Option (Promise Unit × World × Bool) :=
  ((service cfg anyhow).recorded noteRaised).drive () p (w, raised) outs

section Trial
variable {β : Type} {cfg : Config} {op : Op β} {w : World} {raised : Bool}
  {outs : List Outcome} {r : Promise Unit × World × Bool}

theorem trial_await {k : Except JsError β → Promise Unit}
    (h : trial cfg (.await op k) w raised outs = some r) :
    (outs = [] ∧ r.2 = (w, raised)) ∨
    ∃ out rest x w', outs = out :: rest ∧ (op.synchronous = false ∨ out.isDone = true) ∧
      answer none op out w = some (x, w') ∧
      trial cfg (k x) w' (noteRaised op out w raised) rest = some r := by
  cases outs with
  | nil =>
      cases h
      exact Or.inl ⟨rfl, rfl⟩
  | cons out rest =>
      simp only [trial, System.drive] at h
      split at h
      · rename_i hmay
        have hsync : op.synchronous = false ∨ out.isDone = true := by
          simpa [System.recorded, service, anyhow] using hmay
        obtain ⟨s, hs, h⟩ := Option.bind_eq_some_iff.mp h
        obtain ⟨x, hx, rfl⟩ := Option.map_eq_some_iff.mp hs
        exact Or.inr ⟨out, rest, x.1, x.2, rfl, hsync, hx, h⟩
      · cases h

/-- Nothing follows when a program has ended. -/
theorem trial_ended {p : Promise Unit} (hp : p.finished = true)
    (h : trial cfg p w raised outs = some r) : outs = [] ∧ r = (p, w, raised) := by
  cases outs with
  | nil =>
      cases h
      exact ⟨rfl, rfl⟩
  | cons out rest =>
      cases p with
      | pure _ | throw _ => cases h
      | await _ _ => cases hp

/-- Requests that write no withdrawal and pay nothing leave the rows and the node alone. -/
structure SameRows (w w' : World) : Prop where
  now : w'.now = w.now
  withdrawals : w'.withdrawals = w.withdrawals
  fair : w'.fair = w.fair

def Op.rowless {β : Type} (op : Op β) : Prop := op.part ≠ .withdrawals ∧ op.part ≠ .payments

theorem SameRows.of_answer {out : Outcome} {x : Except JsError β} {w' : World} (hop : op.rowless)
    (h : answer none op out w = some (x, w')) : SameRows w w' :=
  ⟨(answer_frame h).now, (answer_frame h).withdrawals hop.1, (answer_frame h).fair hop.2⟩

theorem SameRows.trans {u v : World} (huv : SameRows u v) (hvw : SameRows v w) : SameRows u w :=
  ⟨hvw.now.trans huv.now, hvw.withdrawals.trans huv.withdrawals, hvw.fair.trans huv.fair⟩

theorem trial_apart {p : Promise Unit} (hp : p.Only Op.rowless)
    (h : trial cfg p w raised outs = some r) : SameRows w r.2.1 := by
  induction p generalizing w raised outs with
  | pure _ | throw _ =>
      obtain ⟨_, rfl⟩ := trial_ended rfl h
      exact ⟨rfl, rfl, rfl⟩
  | await op k ih =>
      cases trial_await h with
      | inl hend =>
          rw [hend.2]
          exact ⟨rfl, rfl, rfl⟩
      | inr hstep =>
          obtain ⟨_, _, x, _, _, _, hx, hrest⟩ := hstep
          exact (SameRows.of_answer hp.1 hx).trans (ih x (hp.2 x) hrest)

theorem noteRaised_ok {a : β} {out : Outcome} {w' : World}
    (h : answer none op out w = some (.ok a, w')) : noteRaised op out w raised = raised := by
  simp [noteRaised, h]

theorem noteRaised_error {e : JsError} {out : Outcome} {w' : World}
    (h : answer none op out w = some (.error e, w')) (hop : op.remote = true) :
    noteRaised op out w raised = true := by
  simp [noteRaised, h, hop]

/-- Only a request that is served is answered by a value. -/
theorem done_of_ok {a : β} {out : Outcome} {w' : World}
    (h : answer none op out w = some (.ok a, w')) : out = .done := by
  cases out with
  | done => rfl
  | fail e => cases h
  | lost e =>
      obtain ⟨_, _, hr⟩ := Option.map_eq_some_iff.mp h
      cases hr

/-- A request of a program is answered, or the program ends with its error. -/
theorem trial_call {k : β → Promise Unit}
    (h : trial cfg (call op >>= k) w raised outs = some r) :
    (outs = [] ∧ r.2 = (w, raised)) ∨
    (∃ out e w', outs = [out] ∧ (op.synchronous = false ∨ out.isDone = true) ∧
      answer none op out w = some (.error e, w') ∧
      r.2 = (w', noteRaised op out w raised)) ∨
    ∃ rest a w', outs = .done :: rest ∧ answer none op .done w = some (.ok a, w') ∧
      trial cfg (k a) w' raised rest = some r := by
  cases trial_await h with
  | inl hend => exact Or.inl hend
  | inr hstep =>
      obtain ⟨out, rest, x, w', rfl, hsync, hx, hrest⟩ := hstep
      cases x with
      | error e =>
          obtain ⟨rfl, rfl⟩ := trial_ended rfl hrest
          exact Or.inr (Or.inl ⟨out, e, w', rfl, hsync, hx, rfl⟩)
      | ok a =>
          cases done_of_ok hx
          rw [noteRaised_ok hx] at hrest
          exact Or.inr (Or.inr ⟨rest, a, w', rfl, hx, hrest⟩)

theorem alert_rowless (message : String) : (alert cfg message).Only Op.rowless :=
  alert_only (fun _ => ⟨by rintro ⟨⟩, by rintro ⟨⟩⟩) message

/-- The webhook's errors do not count. -/
theorem trial_alert {message : String} (h : trial cfg (alert cfg message) w raised outs = some r) :
    r.2 = (w, raised) := by
  rw [alert] at h
  split at h
  · obtain ⟨_, rfl⟩ := trial_ended rfl h
    rfl
  · cases trial_await h with
    | inl hend => exact hend.2
    | inr hstep =>
        obtain ⟨out, rest, x, w', _, _, hx, hrest⟩ := hstep
        cases out with
        | done =>
            cases hx
            obtain ⟨_, rfl⟩ := trial_ended rfl hrest
            simp [noteRaised, Op.remote, recordCall]
        | fail e | lost e =>
            cases hx
            obtain ⟨_, rfl⟩ := trial_ended rfl hrest
            simp [noteRaised, Op.remote, recordCall]

/-- Request `n` has its effect. -/
def takesEffect (outs : List Outcome) (n : Nat) : Bool := outs[n]?.any fun out => !out.isFail

/-- Request `n` is served. -/
def isServed (outs : List Outcome) (n : Nat) : Bool := outs[n]?.any Outcome.isDone

/-- Request `n` has its effect, and its answer is lost. -/
def losesAnswer (outs : List Outcome) (n : Nat) : Bool := outs[n]?.any Outcome.isLost

/-- A row is filed, and the node is left alone. -/
structure BurnFiled (d : WithdrawalDoc) (w w' : World) : Prop where
  now : w'.now = w.now
  withdrawals : w'.withdrawals = w.withdrawals.insert w.now d
  fair : w'.fair = w.fair

theorem BurnFiled.later {d : WithdrawalDoc} {u v : World} (h : BurnFiled d w u) (hs : SameRows u v) :
    BurnFiled d w v :=
  ⟨hs.now.trans h.now, hs.withdrawals.trans h.withdrawals, hs.fair.trans h.fair⟩

theorem filed_insert (d : WithdrawalDoc) (w : World) : BurnFiled d w (w.insertWithdrawal d) :=
  ⟨rfl, rfl, rfl⟩

/-- The first row of a burn is filed unless it is refused or the request has no effect. -/
theorem trial_create {l : BurnLog} {d : WithdrawalDoc} {k : WithdrawalDoc → Promise Unit}
    (hfree : l.unfiled w) (hkey : d.key = l.key) (hk : ∀ e, (k e).Only Op.rowless)
    (h : trial cfg (call (.withdrawal (.create d)) >>= k) w raised outs = some r) :
    (SameRows w r.2.1 ∧ ¬ (d.destinationFairAddress ≠ "" ∧ takesEffect outs 0 = true)) ∨
    (d.destinationFairAddress ≠ "" ∧ takesEffect outs 0 = true ∧ BurnFiled d w r.2.1 ∧
      (losesAnswer outs 0 = true ∧ r.2.2 = true ∨
        losesAnswer outs 0 = false ∧ ∃ rest e w',
          trial cfg (k e) w' raised rest = some r)) := by
  have heff : effect none _ w = _ := effect_createFirst hfree hkey
  by_cases hdest : d.destinationFairAddress = ""
  · rw [if_pos hdest] at heff
    refine Or.inl ⟨?_, fun hne => hne.1 hdest⟩
    obtain ⟨_, hr⟩ | ⟨out, e, w', _, _, hans, hr⟩ | ⟨_, _, _, _, hans, _⟩ := trial_call h
    · rw [hr]
      exact ⟨rfl, rfl, rfl⟩
    · have hw : w' = w := by
        cases answer_cases hans with
        | inl hfail =>
            obtain ⟨_, _, _, rfl⟩ := hfail
            rfl
        | inr heffect =>
            obtain ⟨x, hx, _⟩ := heffect
            cases heff.symm.trans hx
            rfl
      rw [hr, hw]
      exact ⟨rfl, rfl, rfl⟩
    · cases heff.symm.trans hans
  · rw [if_neg hdest] at heff
    obtain ⟨rfl, hr⟩ | ⟨out, e, w', rfl, _, hans, hr⟩ | ⟨rest, a, w', rfl, hans, hrest⟩ :=
      trial_call h
    · rw [hr]
      exact Or.inl ⟨⟨rfl, rfl, rfl⟩, fun hne => by simp [takesEffect] at hne⟩
    · cases out with
      | done => cases heff.symm.trans hans
      | fail e =>
          cases hans
          rw [hr]
          exact Or.inl ⟨⟨rfl, rfl, rfl⟩, fun hne => by simp [takesEffect, Outcome.isFail] at hne⟩
      | lost e =>
          have hraised : noteRaised _ _ w raised = true := noteRaised_error hans rfl
          obtain ⟨_, hlost, _⟩ | ⟨x, hx, _⟩ := answer_cases hans
          · cases hlost
          cases heff.symm.trans hx
          rw [hr]
          exact Or.inr ⟨hdest, rfl, filed_insert d w, Or.inl ⟨rfl, hraised⟩⟩
    · cases heff.symm.trans hans
      exact Or.inr ⟨hdest, rfl, (filed_insert d w).later (trial_apart (hk _) hrest),
        Or.inr ⟨rfl, rest, _, _, hrest⟩⟩

theorem trial_refuseBurn {l : BurnLog} {reason : String} (hfree : l.unfiled w)
    (h : trial cfg (refuseBurn cfg l reason) w raised outs = some r) :
    (SameRows w r.2.1 ∧ ¬ (l.faircoinAddress ≠ "" ∧ takesEffect outs 0 = true)) ∨
    (l.faircoinAddress ≠ "" ∧ takesEffect outs 0 = true ∧ BurnFiled l.refused w r.2.1 ∧
      r.2.2 = (raised || losesAnswer outs 0)) := by
  have hrow : l.refused.key = l.key := rfl
  cases trial_create hfree hrow (fun _ => alert_rowless reason) h with
  | inl hsame => exact Or.inl hsame
  | inr hfiled =>
      obtain ⟨hdest, htakes, hfiled, ⟨hlost, hraised⟩ | ⟨hkept, _, _, _, hrest⟩⟩ := hfiled
      · rw [hlost, Bool.or_true]
        exact Or.inr ⟨hdest, htakes, hfiled, hraised⟩
      · rw [hkept, Bool.or_false]
        exact Or.inr ⟨hdest, htakes, hfiled, congrArg Prod.snd (trial_alert hrest)⟩

theorem trial_confirmBurn {l : BurnLog} (hfree : l.unfiled w)
    (h : trial cfg (confirmBurn cfg l) w raised outs = some r) :
    (SameRows w r.2.1 ∧ ¬ (l.faircoinAddress ≠ "" ∧ takesEffect outs 0 = true ∧
      ∃ fee, cfg.bridgeFeeBps.toBigInt = .ok fee)) ∨
    (l.faircoinAddress ≠ "" ∧ takesEffect outs 0 = true ∧
      (∃ fee, cfg.bridgeFeeBps.toBigInt = .ok fee) ∧
      ∃ sats, BurnFiled (l.confirmed sats) w r.2.1) := by
  rw [confirmBurn] at h
  cases hfee : applyFee l.amountSats cfg.bridgeFeeBps with
  | error e =>
      rw [hfee] at h
      obtain ⟨_, rfl⟩ := trial_ended rfl h
      refine Or.inl ⟨⟨rfl, rfl, rfl⟩, fun hne => ?_⟩
      obtain ⟨_, _, fee, hok⟩ := hne
      exact applyFee_error hfee fee hok
  | ok sats =>
      rw [hfee] at h
      have hrow : (l.confirmed sats).key = l.key := rfl
      cases trial_create hfree hrow
          (fun e => .request ⟨by rintro ⟨⟩, by rintro ⟨⟩⟩) h with
      | inl hsame => exact Or.inl ⟨hsame.1, fun hne => hsame.2 ⟨hne.1, hne.2.1⟩⟩
      | inr hfiled =>
          obtain ⟨fee, hbps, _⟩ := applyFee_ok hfee
          have hconv : cfg.bridgeFeeBps.toBigInt = .ok fee := hbps ▸ JsNumber.toBigInt_int fee
          exact Or.inr ⟨hfiled.1, hfiled.2.1, ⟨fee, hconv⟩, sats, hfiled.2.2.1⟩

theorem answer_unchanged {out : Outcome} {x y : Except JsError β} {w' : World}
    (hrec : recordCall op w = w) (heff : effect none op w = some (y, w))
    (h : answer none op out w = some (x, w')) : w' = w := by
  obtain ⟨_, _, _, rfl⟩ | ⟨z, hz, _⟩ := answer_cases h
  · exact hrec
  · rw [hrec] at hz
    cases heff.symm.trans hz
    rfl

end Trial

section Pass
variable {cfg : Config} {l : BurnLog} {w : World} {raised : Bool} {outs : List Outcome}
  {r : Promise Unit × World × Bool}

/-- The request that creates the row: the one after validation, or, of a valid address, the
one after the daily sum. -/
def BurnLog.creation (l : BurnLog) (w : World) (outs : List Outcome) : Nat :=
  if isServed outs 1 && w.fair.isvalid l.faircoinAddress then 4 else 2

/-- The outcomes of the pass let it file the burn as FAILED. -/
structure BurnLog.Refused (cfg : Config) (l : BurnLog) (w : World) (outs : List Outcome) :
    Prop where
  destination : l.faircoinAddress ≠ ""
  checked : ∃ capSats, cfg.perAddressDailyCapFair.toSats = .ok capSats ∧
    (isServed outs 1 && l.releasable capSats w) = false
  created : takesEffect outs (l.creation w outs) = true

/-- The outcomes of the pass let it file the burn as CONFIRMED. -/
structure BurnLog.Accepted (cfg : Config) (l : BurnLog) (w : World) (outs : List Outcome) :
    Prop where
  destination : l.faircoinAddress ≠ ""
  checked : ∃ capSats, cfg.perAddressDailyCapFair.toSats = .ok capSats ∧
    (isServed outs 1 && l.releasable capSats w) = true
  priced : ∃ fee, cfg.bridgeFeeBps.toBigInt = .ok fee
  created : takesEffect outs 4 = true

/-- Before the row is created nothing is decided. -/
theorem undecided (h : outs.length ≤ l.creation w outs) :
    ¬ l.Refused cfg w outs ∧ ¬ l.Accepted cfg w outs := by
  have hlate : ∀ n, outs.length ≤ n → takesEffect outs n = false := by
    intro n hn
    rw [takesEffect, List.getElem?_eq_none hn]
    rfl
  have hlast : l.creation w outs ≤ 4 := by
    rw [BurnLog.creation]
    split <;> omega
  refine ⟨fun href => ?_, fun hacc => ?_⟩
  · have hcreated := href.created
    rw [hlate _ h] at hcreated
    cases hcreated
  · have hcreated := hacc.created
    rw [hlate _ (by omega)] at hcreated
    cases hcreated

/-- What a pass over a burn without a row can come to. -/
inductive PassEnd (cfg : Config) (l : BurnLog) (w : World) (outs : List Outcome) :
    World → Bool → Prop where
  | undone {w' : World} {raised : Bool} : SameRows w w' → ¬ l.Refused cfg w outs →
      ¬ l.Accepted cfg w outs → PassEnd cfg l w outs w' raised
  | refused {w' : World} {raised : Bool} : l.Refused cfg w outs → ¬ l.Accepted cfg w outs →
      BurnFiled l.refused w w' →
      raised = (!isServed outs 1 || losesAnswer outs (l.creation w outs)) →
      PassEnd cfg l w outs w' raised
  | accepted {w' : World} {raised : Bool} (sats : Int) : l.Accepted cfg w outs →
      ¬ l.Refused cfg w outs → BurnFiled (l.confirmed sats) w w' →
      PassEnd cfg l w outs w' raised

theorem refused_end {capSats : Int} {reason : String} {rest : List Outcome}
    (hfree : l.unfiled w) (hcap : cfg.perAddressDailyCapFair.toSats = .ok capSats)
    (hno : (isServed outs 1 && l.releasable capSats w) = false)
    (hat : outs.drop (l.creation w outs) = rest)
    (h : trial cfg (refuseBurn cfg l reason) w (!isServed outs 1) rest = some r) :
    PassEnd cfg l w outs r.2.1 r.2.2 := by
  have htakes : takesEffect outs (l.creation w outs) = takesEffect rest 0 := by
    simp [takesEffect, ← hat]
  have hloses : losesAnswer outs (l.creation w outs) = losesAnswer rest 0 := by
    simp [losesAnswer, ← hat]
  have hacc : ¬ l.Accepted cfg w outs := by
    intro hacc
    obtain ⟨cap, hok, hyes⟩ := hacc.checked
    cases hcap.symm.trans hok
    rw [hno] at hyes
    cases hyes
  cases trial_refuseBurn hfree h with
  | inl hsame =>
      refine .undone hsame.1 (fun href => hsame.2 ⟨href.destination, ?_⟩) hacc
      rw [← htakes]
      exact href.created
  | inr hfiled =>
      obtain ⟨hdest, hcreated, hfiled, hraised⟩ := hfiled
      rw [← hloses] at hraised
      exact .refused ⟨hdest, ⟨capSats, hcap, hno⟩, htakes.trans hcreated⟩ hacc hfiled hraised

theorem accepted_end {capSats : Int} {rest : List Outcome}
    (hfree : l.unfiled w) (hcap : cfg.perAddressDailyCapFair.toSats = .ok capSats)
    (hyes : (isServed outs 1 && l.releasable capSats w) = true) (hat : outs.drop 4 = rest)
    (h : trial cfg (confirmBurn cfg l) w raised rest = some r) :
    PassEnd cfg l w outs r.2.1 r.2.2 := by
  have htakes : takesEffect outs 4 = takesEffect rest 0 := by
    simp [takesEffect, ← hat]
  have href : ¬ l.Refused cfg w outs := by
    intro href
    obtain ⟨cap, hok, hno⟩ := href.checked
    cases hcap.symm.trans hok
    rw [hyes] at hno
    cases hno
  cases trial_confirmBurn hfree h with
  | inl hsame =>
      refine .undone hsame.1 href fun hacc => hsame.2 ⟨hacc.destination, ?_, hacc.priced⟩
      rw [← htakes]
      exact hacc.created
  | inr hfiled =>
      obtain ⟨hdest, hcreated, hpriced, sats, hfiled⟩ := hfiled
      exact .accepted sats ⟨hdest, ⟨capSats, hcap, hyes⟩, hpriced, htakes.trans hcreated⟩ href
        hfiled

/-- The sum of the last day is read in two requests, and neither changes anything. -/
theorem trial_daily {k : Int → Promise Unit} {source : Address}
    (h : trial cfg (sumDailyWithdrawalSatsForAddress source >>= k) w raised outs = some r) :
    (outs.length ≤ 2 ∧ r.2.1 = w) ∨ ∃ rest, outs = .done :: .done :: rest ∧
      trial cfg (k (w.dailySats source)) w raised rest = some r := by
  cases trial_await h with
  | inl hend =>
      rw [hend.1, hend.2]
      exact Or.inl ⟨Nat.zero_le 2, rfl⟩
  | inr hclock =>
      obtain ⟨out, rest, x, w', rfl, hsync, hx, hrest⟩ := hclock
      cases out with
      | fail _ | lost _ => simp [Op.synchronous, Outcome.isDone] at hsync
      | done =>
          have hnow : answer none .dateNow .done w = some (.ok w.now, w) := rfl
          cases hnow.symm.trans hx
          rw [noteRaised_ok hnow] at hrest
          cases trial_await hrest with
          | inl hend =>
              rw [hend.1, hend.2]
              exact Or.inl ⟨Nat.le_succ 1, rfl⟩
          | inr hfind =>
              obtain ⟨out, rest, x, w', rfl, _, hx, hrest⟩ := hfind
              have hw : w' = w := answer_unchanged rfl rfl hx
              cases x with
              | error e =>
                  obtain ⟨rfl, rfl⟩ := trial_ended rfl hrest
                  exact Or.inl ⟨Nat.le_refl 2, hw⟩
              | ok rows =>
                  cases done_of_ok hx
                  have hrows : answer none
                      (.withdrawal (.find (recentWithdrawal w.now source) none)) .done w =
                        some (.ok (w.withdrawals.docs.filter (recentWithdrawal w.now source)), w) :=
                    rfl
                  cases hrows.symm.trans hx
                  rw [noteRaised_ok hrows] at hrest
                  exact Or.inr ⟨rest, rfl, hrest⟩

theorem trial_recordBurn (hfree : l.unfiled w)
    (h : trial cfg (recordBurn cfg l) w false outs = some r) :
    PassEnd cfg l w outs r.2.1 r.2.2 := by
  have hearly : outs.length ≤ 2 → r.2.1 = w → PassEnd cfg l w outs r.2.1 r.2.2 := by
    intro hlen hw
    have hcreation : 2 ≤ l.creation w outs := by
      rw [BurnLog.creation]
      split <;> omega
    obtain ⟨href, hacc⟩ := undecided (Nat.le_trans hlen hcreation)
    rw [hw]
    exact .undone ⟨rfl, rfl, rfl⟩ href hacc
  rw [recordBurn] at h
  have hfind : effect none _ w = _ := effect_findUnfiled hfree
  obtain ⟨rfl, hr⟩ | ⟨out, e, w', rfl, _, hans, hr⟩ | ⟨rest, a, w', rfl, hans, hrest⟩ :=
    trial_call h
  · exact hearly (Nat.zero_le 2) (congrArg Prod.fst hr)
  · exact hearly (Nat.le_succ 1)
      ((congrArg Prod.fst hr).trans (answer_unchanged rfl hfind hans))
  · cases hfind.symm.trans hans
    cases hcap : cfg.perAddressDailyCapFair.toSats with
    | error e =>
        rw [hcap] at hrest
        obtain ⟨rfl, rfl⟩ := trial_ended rfl hrest
        exact hearly (Nat.le_succ 1) rfl
    | ok capSats =>
        rw [hcap] at hrest
        cases trial_await hrest with
        | inl hend =>
            cases hend.1
            exact hearly (Nat.le_succ 1) (congrArg Prod.fst hend.2)
        | inr hvalidate =>
            obtain ⟨out, rest, x, w', rfl, _, hx, hrest⟩ := hvalidate
            obtain rfl : w' = w := answer_unchanged rfl rfl hx
            cases x with
            | error e =>
                have hserved : isServed (.done :: out :: rest) 1 = false := by
                  cases out with
                  | done => cases hx
                  | fail _ | lost _ => rfl
                rw [noteRaised_error hx rfl] at hrest
                refine refused_end hfree hcap (by rw [hserved]; rfl) ?_
                  (by rw [hserved]; exact hrest)
                rw [BurnLog.creation, hserved]
                rfl
            | ok valid =>
                cases done_of_ok hx
                rw [noteRaised_ok hx] at hrest
                have hvalidated : answer none (.validateAddress l.faircoinAddress) .done w' =
                    some (.ok (w'.fair.isvalid l.faircoinAddress), w') := rfl
                cases hvalidated.symm.trans hx
                have hserved : isServed (.done :: .done :: rest) 1 = true := rfl
                cases hvalid : w'.fair.isvalid l.faircoinAddress with
                | false =>
                    rw [hvalid] at hrest
                    refine refused_end hfree hcap
                      (by simp [BurnLog.releasable, hvalid]) ?_ hrest
                    rw [BurnLog.creation, hserved, hvalid]
                    rfl
                | true =>
                    rw [hvalid] at hrest
                    have hcreation : l.creation w' (.done :: .done :: rest) = 4 := by
                      rw [BurnLog.creation, hserved, hvalid]
                      rfl
                    cases trial_daily hrest with
                    | inl hend =>
                        obtain ⟨href, hacc⟩ := undecided (l := l) (w := w')
                          (by rw [hcreation]; exact Nat.add_le_add_right hend.1 2)
                        rw [hend.2]
                        exact .undone ⟨rfl, rfl, rfl⟩ href hacc
                    | inr hread =>
                        obtain ⟨rest, rfl, hjudged⟩ := hread
                        split at hjudged
                        · rename_i hover
                          have hno : l.releasable capSats w' = false := by
                            simp [BurnLog.releasable, hvalid, Int.not_le.mpr hover]
                          exact refused_end hfree hcap (by rw [hno, Bool.and_false])
                            (by rw [hcreation]; rfl) hjudged
                        · rename_i hroom
                          have hyes : l.releasable capSats w' = true := by
                            simp [BurnLog.releasable, hvalid, Int.not_lt.mp hroom]
                          exact accepted_end hfree hcap
                            (by rw [hserved, hyes]; rfl) rfl hjudged

theorem trial_filed (hfiled : ¬ l.unfiled w)
    (h : trial cfg (recordBurn cfg l) w raised outs = some r) : r.2.1 = w := by
  cases hpick : pick (fun d => d.baseBurnTxHash == l.txHash && d.logIndex == l.logIndex) none
      w.withdrawals.docs with
  | none => exact absurd (BurnLog.unfiled_iff.mpr hpick) hfiled
  | some d =>
      have hfind : effect none (.withdrawal (.findOne
          (fun d => d.baseBurnTxHash == l.txHash && d.logIndex == l.logIndex) none)) w =
            some (.ok (some d), w) := by
        simp only [effect, Query.run, hpick]
      rw [recordBurn] at h
      obtain ⟨_, hr⟩ | ⟨_, _, w', _, _, hans, hr⟩ | ⟨rest, a, w', _, hans, hrest⟩ := trial_call h
      · exact congrArg Prod.fst hr
      · exact (congrArg Prod.fst hr).trans (answer_unchanged rfl hfind hans)
      · cases hfind.symm.trans hans
        obtain ⟨_, rfl⟩ := trial_ended rfl hrest
        rfl

/-- A FAILED row is there that was not there before. -/
def World.addsFailed (w w' : World) : Prop :=
  ∃ d ∈ w'.withdrawals.docs, d ∉ w.withdrawals.docs ∧ d.status = .failed

/-- The burn has no row, and the pass files it as FAILED although validation raised or the
answer to the row's creation is lost. -/
def BurnLog.struckOff (cfg : Config) (l : BurnLog) (w : World) (outs : List Outcome) : Prop :=
  l.unfiled w ∧ l.Refused cfg w outs ∧
    (isServed outs 1 = false ∨ losesAnswer outs (l.creation w outs) = true)

theorem BurnFiled.added {d : WithdrawalDoc} {w' : World} (h : BurnFiled d w w') :
    withdrawalSchema.assign w.withdrawals.nextId w.now d ∈ w'.withdrawals.docs ∧
      withdrawalSchema.assign w.withdrawals.nextId w.now d ∉ w.withdrawals.docs := by
  rw [h.withdrawals]
  refine ⟨List.mem_append_right _ (List.mem_singleton.mpr rfl), fun hold => ?_⟩
  exact absurd (w.withdrawals.below _ hold) (Nat.lt_irrefl _)

/-- A pass on which a request raised files the burn as FAILED exactly when it strikes the
burn off. -/
theorem trial_added (h : trial cfg (recordBurn cfg l) w false outs = some r) :
    (r.2.2 = true → ¬ w.addsFailed r.2.1) ↔ ¬ l.struckOff cfg w outs := by
  have hsame : r.2.1.withdrawals = w.withdrawals → ¬ w.addsFailed r.2.1 := by
    intro hrows hadds
    obtain ⟨d, hd, hnew, _⟩ := hadds
    exact hnew (hrows ▸ hd)
  by_cases hfree : l.unfiled w
  · cases trial_recordBurn hfree h with
    | undone hrows href _ =>
        exact ⟨fun _ hstruck => href hstruck.2.1, fun _ _ => hsame hrows.withdrawals⟩
    | refused href _ hfiled hraised =>
        have hadds : w.addsFailed r.2.1 := ⟨_, hfiled.added.1, hfiled.added.2, rfl⟩
        rw [hraised, Bool.or_eq_true, Bool.not_eq_true']
        exact ⟨fun hnone hstruck => hnone hstruck.2.2 hadds,
          fun hnot hslip => absurd ⟨hfree, href, hslip⟩ hnot⟩
    | accepted sats _ href hfiled =>
        refine ⟨fun _ hstruck => href hstruck.2.1, fun _ _ hadds => ?_⟩
        obtain ⟨d, hd, hnew, hst⟩ := hadds
        rw [hfiled.withdrawals] at hd
        cases List.mem_append.mp hd with
        | inl hold => exact hnew hold
        | inr hrow =>
            rw [List.mem_singleton.mp hrow] at hst
            cases hst
  · have hw := trial_filed hfree h
    refine ⟨fun _ hstruck => hfree hstruck.1, fun _ _ => hsame ?_⟩
    rw [hw]

/-- Nothing but time stands between the burn and its release: it has no row, its address is
valid, it stays within the cap from now on, and the policy numbers convert. -/
structure BurnLog.Clears (cfg : Config) (l : BurnLog) (w : World) : Prop where
  unfiled : l.unfiled w
  destination : l.faircoinAddress ≠ ""
  within : ∃ capSats, cfg.perAddressDailyCapFair.toSats = .ok capSats ∧
    ∀ now, w.now ≤ now → l.releasable capSats { w with now := now } = true
  priced : ∃ fee, cfg.bridgeFeeBps.toBigInt = .ok fee

theorem BurnLog.Clears.later {w' : World} (h : l.Clears cfg w) (hnow : w.now ≤ w'.now)
    (hrows : w'.withdrawals = w.withdrawals) (hvalid : w'.fair.isvalid = w.fair.isvalid) :
    l.Clears cfg w' where
  unfiled d hd := h.unfiled d (hrows ▸ hd)
  destination := h.destination
  within := by
    obtain ⟨capSats, hcap, hwithin⟩ := h.within
    refine ⟨capSats, hcap, fun now hle => ?_⟩
    have hthen := hwithin now (Nat.le_trans hnow hle)
    rw [BurnLog.releasable_iff] at hthen ⊢
    simp only [World.dailySats, hrows, hvalid] at hthen ⊢
    exact hthen
  priced := h.priced

theorem BurnLog.Clears.releasable (h : l.Clears cfg w) :
    ∃ capSats, cfg.perAddressDailyCapFair.toSats = .ok capSats ∧
      l.releasable capSats w = true := by
  obtain ⟨capSats, hcap, hwithin⟩ := h.within
  exact ⟨capSats, hcap, hwithin w.now (Nat.le_refl _)⟩

/-- A burn that clears is refused only if validation raises. -/
theorem BurnLog.Clears.refused_iff (h : l.Clears cfg w) :
    l.Refused cfg w outs ↔ isServed outs 1 = false ∧ takesEffect outs 2 = true := by
  obtain ⟨capSats, hcap, hrel⟩ := h.releasable
  refine ⟨fun href => ?_, fun hslip => ⟨h.destination, ⟨capSats, hcap, ?_⟩, ?_⟩⟩
  · obtain ⟨cap, hok, hno⟩ := href.checked
    cases hcap.symm.trans hok
    rw [hrel, Bool.and_true] at hno
    refine ⟨hno, ?_⟩
    have hcreated := href.created
    rwa [BurnLog.creation, hno] at hcreated
  · rw [hslip.1, Bool.false_and]
  · rw [BurnLog.creation, hslip.1]
    exact hslip.2

theorem BurnLog.Clears.accepted_iff (h : l.Clears cfg w) :
    l.Accepted cfg w outs ↔ isServed outs 1 = true ∧ takesEffect outs 4 = true := by
  obtain ⟨capSats, hcap, hrel⟩ := h.releasable
  refine ⟨fun hacc => ?_, fun hyes => ⟨h.destination, ⟨capSats, hcap, ?_⟩, h.priced, hyes.2⟩⟩
  · obtain ⟨cap, hok, hyes⟩ := hacc.checked
    cases hcap.symm.trans hok
    rw [hrel, Bool.and_true] at hyes
    exact ⟨hyes, hacc.created⟩
  · rw [hyes.1, hrel]
    rfl

/-- The burn is on file as CONFIRMED. -/
def BurnLog.onFile (l : BurnLog) (w : World) : Prop :=
  ∃ d ∈ w.withdrawals.docs, d.key = l.key ∧ d.status = .confirmed

/-- All that is on file for the burn is a refusal. -/
def BurnLog.turnedDown (l : BurnLog) (w : World) : Prop :=
  ¬ l.unfiled w ∧ ∀ d ∈ w.withdrawals.docs, d.key = l.key → d.status = .failed

/-- The outcomes let one of the passes file the burn as FAILED, after none filed it as
CONFIRMED. -/
def strikes : List (List Outcome) → Bool
  | [] => false
  | outs :: passes =>
      if isServed outs 1 then !takesEffect outs 4 && strikes passes
      else takesEffect outs 2 || strikes passes

/-- Passes over a log, each after what the environment did since the last one. -/
def rescans (cfg : Config) (log : Log) :
    World → List (List EnvEvent × List Outcome) → Option World
  | w, [] => some w
  | w, (events, outs) :: passes =>
      (events.foldlM (fun w (e : EnvEvent) => e.occur w) w).bind fun w =>
        (trial cfg (processLog cfg log) w false outs).bind fun r =>
          rescans cfg log r.2.1 passes

theorem occur_apart {events : List EnvEvent} {w' : World}
    (h : events.foldlM (fun w (e : EnvEvent) => e.occur w) w = some w') :
    w.now ≤ w'.now ∧ w'.withdrawals = w.withdrawals ∧ w'.fair.isvalid = w.fair.isvalid := by
  induction events generalizing w with
  | nil =>
      cases h
      exact ⟨Nat.le_refl _, rfl, rfl⟩
  | cons e events ih =>
      obtain ⟨v, hv, h⟩ := Option.bind_eq_some_iff.mp h
      obtain ⟨hnow, hrows, hvalid⟩ := ih h
      exact ⟨Nat.le_trans (EnvEvent.occur_now hv) hnow,
        hrows.trans (EnvEvent.occur_surroundings hv).withdrawals,
        hvalid.trans (EnvEvent.occur_isvalid hv)⟩

/-- What is on file stays as it is. -/
theorem rescans_filed {log : Log} (hlog : log.burnLog = some l)
    {passes : List (List EnvEvent × List Outcome)} {w' : World} (hfiled : ¬ l.unfiled w)
    (h : rescans cfg log w passes = some w') : w'.withdrawals = w.withdrawals := by
  induction passes generalizing w with
  | nil =>
      cases h
      rfl
  | cons pass passes ih =>
      obtain ⟨events, outs⟩ := pass
      obtain ⟨v, hv, h⟩ := Option.bind_eq_some_iff.mp h
      obtain ⟨r, hr, h⟩ := Option.bind_eq_some_iff.mp h
      have hrows := (occur_apart hv).2.1
      have hfiled' : ¬ l.unfiled v := by
        rwa [BurnLog.unfiled, hrows]
      simp only [processLog, hlog] at hr
      have hr := trial_filed hfiled' hr
      rw [hr] at h
      exact (ih hfiled' h).trans hrows

/-- After any passes the burn still clears, or it is on file as the outcomes have it. -/
theorem rescans_clears {log : Log} (hlog : log.burnLog = some l)
    {passes : List (List EnvEvent × List Outcome)} {w' : World} (hclear : l.Clears cfg w)
    (h : rescans cfg log w passes = some w') :
    (strikes (passes.map Prod.snd) = false ∧ (l.Clears cfg w' ∨ ¬ l.unfiled w' ∧ l.onFile w')) ∨
    (strikes (passes.map Prod.snd) = true ∧ l.turnedDown w') := by
  induction passes generalizing w with
  | nil =>
      cases h
      exact Or.inl ⟨rfl, Or.inl hclear⟩
  | cons pass passes ih =>
      obtain ⟨events, outs⟩ := pass
      obtain ⟨v, hv, h⟩ := Option.bind_eq_some_iff.mp h
      obtain ⟨r, hr, h⟩ := Option.bind_eq_some_iff.mp h
      obtain ⟨hnow, hrows, hvalid⟩ := occur_apart hv
      have hclear' := hclear.later hnow hrows hvalid
      simp only [processLog, hlog] at hr
      simp only [List.map_cons, strikes]
      cases trial_recordBurn hclear'.unfiled hr with
      | undone hsame href hacc =>
          rw [hclear'.refused_iff, not_and] at href
          rw [hclear'.accepted_iff, not_and] at hacc
          have hstrikes : (if isServed outs 1 = true then
              !takesEffect outs 4 && strikes (passes.map Prod.snd)
              else takesEffect outs 2 || strikes (passes.map Prod.snd)) =
                strikes (passes.map Prod.snd) := by
            split
            · rename_i hserved
              rw [Bool.eq_false_iff.mpr (hacc hserved)]
              rfl
            · rename_i hserved
              rw [Bool.eq_false_iff.mpr (href (Bool.eq_false_iff.mpr hserved))]
              rfl
          rw [hstrikes]
          exact ih (hclear'.later (Nat.le_of_eq hsame.now.symm) hsame.withdrawals
            (congrArg FairNode.isvalid hsame.fair)) h
      | refused href _ hfiled _ =>
          obtain ⟨hserved, htakes⟩ := hclear'.refused_iff.mp href
          refine Or.inr ⟨by rw [hserved, htakes]; rfl, ?_⟩
          have hrow : ¬ l.unfiled r.2.1 := fun hnone => hnone _ hfiled.added.1 rfl
          have hlater := rescans_filed hlog hrow h
          rw [BurnLog.turnedDown, BurnLog.unfiled, hlater]
          refine ⟨hrow, fun d hd hkey => ?_⟩
          rw [hfiled.withdrawals] at hd
          cases List.mem_append.mp hd with
          | inl hold => exact absurd hkey (hclear'.unfiled d hold)
          | inr hnew => rw [List.mem_singleton.mp hnew]; rfl
      | accepted sats hacc _ hfiled =>
          obtain ⟨hserved, htakes⟩ := hclear'.accepted_iff.mp hacc
          refine Or.inl ⟨by rw [hserved, htakes]; rfl, Or.inr ?_⟩
          have hrow : ¬ l.unfiled r.2.1 := fun hnone => hnone _ hfiled.added.1 rfl
          have hlater := rescans_filed hlog hrow h
          rw [BurnLog.onFile, BurnLog.unfiled, hlater]
          exact ⟨hrow, _, hfiled.added.1, rfl, rfl⟩

/-- A pass in good order over a burn that clears files it as CONFIRMED. -/
theorem alone_clears {ι : Type} {f : Faults ι} {i : ι} (h : l.Clears cfg w) :
    ∃ w', (service cfg f).alone i (recordBurn cfg l) w = some (.ok (), w') ∧ l.onFile w' := by
  obtain ⟨capSats, hcap, hrel⟩ := h.releasable
  obtain ⟨fee, hfee⟩ := h.priced
  obtain ⟨reason, hrun⟩ := alone_recordBurn (f := f) (i := i) h.unfiled hcap
  have hsats := applyFee_eq l.amountSats fee
  rw [← JsNumber.toBigInt_ok hfee] at hsats
  rw [hrel, if_pos rfl, alone_confirmBurn h.unfiled, hsats] at hrun
  refine ⟨_, hrun.trans (if_neg h.destination), _,
    List.mem_append_right _ (List.mem_singleton.mpr rfl), rfl, rfl⟩

end Pass

/-- A pass on which the node, the database or a queue raises files its burn as FAILED exactly
when validation raised, or the answer to the creation of a due refusal was lost. And a burn
that clears ends as CONFIRMED after any passes and one in good order exactly when validation
raised on none that filed it. -/
theorem burn_struckOff_iff (cfg : Config) {log : Log} {l : BurnLog}
    (hlog : log.burnLog = some l) :
    (∀ w outs r, trial cfg (processLog cfg log) w false outs = some r →
      ((r.2.2 = true → ¬ w.addsFailed r.2.1) ↔ ¬ l.struckOff cfg w outs)) ∧
    ∀ w passes w₁, l.Clears cfg w → rescans cfg log w passes = some w₁ →
      ((∃ w₂, (service cfg calm).alone () (processLog cfg log) w₁ = some (.ok (), w₂) ∧
        l.onFile w₂) ↔ strikes (passes.map Prod.snd) = false) := by
  refine ⟨fun w outs r h => ?_, fun w passes w₁ hclear h => ?_⟩
  · simp only [processLog, hlog] at h
    exact trial_added h
  · simp only [processLog, hlog]
    obtain ⟨hno, hclear₁ | hfiled⟩ | ⟨hyes, hdown⟩ := rescans_clears hlog hclear h
    · exact ⟨fun _ => hno, fun _ => alone_clears hclear₁⟩
    · exact ⟨fun _ => hno, fun _ => ⟨w₁, alone_filed hfiled.1, hfiled.2⟩⟩
    · rw [hyes]
      refine ⟨fun hon => ?_, fun hcontra => by cases hcontra⟩
      obtain ⟨w₂, hrun, d, hd, hkey, hst⟩ := hon
      cases (alone_filed hdown.1).symm.trans hrun
      rw [hdown.2 d hd hkey] at hst
      cases hst

namespace Sample

def timeout : JsError := .error "timeout"

theorem burnLog_clears : burnLog.Clears config burnWorld where
  unfiled := by simp [BurnLog.unfiled, burnWorld, Collection.empty]
  destination := by decide +kernel
  within := ⟨10000000000, by decide +kernel,
    fun _ _ => BurnLog.releasable_iff.mpr ⟨rfl, by simp [World.dailySats, burnWorld,
      Collection.empty, BurnLog.amountSats, burnLog, bigIntDiv, satsToWei]⟩⟩
  priced := ⟨30, by decide +kernel⟩

end Sample

/-- The database fails the first pass and the second dies; the third is in good order. -/
theorem failed_pass_retried : ∃ w₁ w₂,
    rescans Sample.config Sample.log Sample.burnWorld
      [([], [.fail Sample.timeout]), ([.wait 5000], [.done, .done])] = some w₁ ∧
    (service Sample.config calm).alone () (processLog Sample.config Sample.log) w₁ =
      some (.ok (), w₂) ∧ Sample.burnLog.onFile w₂ := by
  have hsome : (rescans Sample.config Sample.log Sample.burnWorld
      [([], [.fail Sample.timeout]), ([.wait 5000], [.done, .done])]).isSome = true := by
    decide +kernel
  obtain ⟨w₁, hw₁⟩ := Option.isSome_iff_exists.mp hsome
  obtain ⟨w₂, hw₂⟩ := ((burn_struckOff_iff Sample.config rfl).2 Sample.burnWorld _ w₁
    Sample.burnLog_clears hw₁).mpr rfl
  exact ⟨w₁, w₂, hw₁, hw₂⟩

/-- The node does not answer one validation of a burn that clears. The pass files it as
FAILED, and the next pass leaves it so. -/
theorem valid_burn_struckOff : Sample.burnLog.Clears Sample.config Sample.burnWorld ∧ ∃ r w₂,
    trial Sample.config (processLog Sample.config Sample.log) Sample.burnWorld false
      [.done, .fail Sample.timeout, .done] = some r ∧
    r.2.2 = true ∧ Sample.burnWorld.addsFailed r.2.1 ∧
    (service Sample.config calm).alone () (processLog Sample.config Sample.log) r.2.1 =
      some (.ok (), w₂) ∧ ¬ Sample.burnLog.onFile w₂ := by
  refine ⟨Sample.burnLog_clears, ?_⟩
  have hrun : (trial Sample.config (processLog Sample.config Sample.log) Sample.burnWorld false
      [.done, .fail Sample.timeout, .done]).map (fun r => (r.2.2,
        r.2.1.withdrawals.docs.map WithdrawalDoc.status,
        r.2.1.withdrawals.docs.any fun d => d.key == Sample.burnLog.key)) =
      some (true, [.failed], true) := by decide +kernel
  obtain ⟨r, hr, hfacts⟩ := Option.map_eq_some_iff.mp hrun
  simp only [Prod.mk.injEq] at hfacts
  obtain ⟨hraised, hstatus, hkey⟩ := hfacts
  obtain ⟨d, hd, hdkey⟩ := List.any_eq_true.mp hkey
  have hfailed : ∀ e ∈ r.2.1.withdrawals.docs, e.status = .failed := by
    intro e he
    have hmem := List.mem_map_of_mem (f := WithdrawalDoc.status) he
    rw [hstatus] at hmem
    exact List.mem_singleton.mp hmem
  have hfiled : ¬ Sample.burnLog.unfiled r.2.1 := fun hnone => hnone d hd (beq_iff_eq.mp hdkey)
  refine ⟨r, r.2.1, hr, hraised, ⟨d, hd, ?_, hfailed d hd⟩, alone_filed hfiled, ?_⟩
  · simp [Sample.burnWorld, Collection.empty]
  · intro hon
    obtain ⟨e, he, _, hst⟩ := hon
    rw [hfailed e he] at hst
    cases hst

end FairBridge

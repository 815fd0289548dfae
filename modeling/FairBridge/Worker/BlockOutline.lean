import FairBridge.Service

/-!
A proof outline of the scan of one vout: what the watcher knows at each of its
awaits, and what each of its requests has to keep.
-/

namespace FairBridge
open Store Async Async.Rules

variable {ι S τ : Type} {sys : System Op JsError World ι τ EnvEvent}

theorem Created.stable_error {R : Rules sys S} {i : ι} {M : DepositDoc → S → Prop}
    {D : S → Prop} (hD : R.Stable i D) (e : JsError) :
    R.Stable i (Created M D (R.rest i) (.error e)) :=
  fun _ _ hs ht hst h =>
    ⟨R.rest_stable hs ht hst h.1, fun he => hD _ _ hs ht hst (h.2 he)⟩

/-- `base` is known throughout and `done` once the vout is dealt with; `known` once
its address is a deposit address, `matched` of the rows read at it. `clocked` and
`summed` are known of the time and the sum of the daily cap, `within` once they
leave room for the deposit; `supplyRead`, `inFlightRead` and `bothRead` of the sums
of the cap on everything, `cleared` once those do; and `confirmed` of the deposit's
row before its job is added. -/
structure VoutOutline (R : Rules sys S) (i : ι) (cfg : Config) (v : ScannedVout) where
  base : S → Prop
  done : S → Prop
  known : String → S → Prop
  matched : MatchedDeposit → S → Prop
  clocked : MatchedDeposit → Nat → S → Prop
  summed : MatchedDeposit → Int → S → Prop
  within : MatchedDeposit → S → Prop
  supplyRead : MatchedDeposit → Int → S → Prop
  inFlightRead : MatchedDeposit → Int → S → Prop
  bothRead : MatchedDeposit → Int → S → Prop
  cleared : MatchedDeposit → Int → S → Prop
  confirmed : MatchedDeposit → ObjectId → Int → S → Prop
  base_stable : R.Stable i base
  done_stable : R.Stable i done
  known_stable : ∀ a, R.Stable i (known a)
  matched_stable : ∀ m, R.Stable i (matched m)
  clocked_stable : ∀ m now, R.Stable i (clocked m now)
  summed_stable : ∀ m n, R.Stable i (summed m n)
  within_stable : ∀ m, R.Stable i (within m)
  supplyRead_stable : ∀ m n, R.Stable i (supplyRead m n)
  inFlightRead_stable : ∀ m n, R.Stable i (inFlightRead m n)
  bothRead_stable : ∀ m n, R.Stable i (bothRead m n)
  cleared_stable : ∀ m n, R.Stable i (cleared m n)
  confirmed_stable : ∀ m id n, R.Stable i (confirmed m id n)
  base_rest : ∀ s, R.inv s → base s → R.rest i s
  done_rest : ∀ s, R.inv s → done s → R.rest i s
  known_rest : ∀ a s, R.inv s → known a s → R.rest i s
  matched_rest : ∀ m s, R.inv s → matched m s → R.rest i s
  clocked_rest : ∀ m now s, R.inv s → clocked m now s → R.rest i s
  summed_matched : ∀ m n s, R.inv s → summed m n s → matched m s
  within_rest : ∀ m s, R.inv s → within m s → R.rest i s
  supplyRead_rest : ∀ m n s, R.inv s → supplyRead m n s → R.rest i s
  inFlightRead_rest : ∀ m n s, R.inv s → inFlightRead m n s → R.rest i s
  bothRead_matched : ∀ m n s, R.inv s → bothRead m n s → matched m s
  cleared_rest : ∀ m n s, R.inv s → cleared m n s → R.rest i s
  confirmed_rest : ∀ m id n s, R.inv s → confirmed m id n s → R.rest i s
  unaddressed : voutAddress v.vout = none → ∀ s, R.inv s → base s → done s
  address : ∀ a, voutAddress v.vout = some a → R.Performs i base (.knownDepositAddress a v.key)
    (Answered (fun isKnown s => if isKnown = true then known a s else done s) (R.rest i))
  intent : ∀ a, voutAddress v.vout = some a → R.Performs i (known a)
    (.deposit (.findOne (fun d => d.fairAddress == a && d.isOpen) none))
    (Answered (Found (fun p => matched ⟨some p, some p, a, fairValueToSats v.vout.value⟩)
      (known a)) (R.rest i))
  earliest : ∀ a, voutAddress v.vout = some a → R.Performs i (known a)
    (.deposit (.findOne (fun d => d.fairAddress == a) (some DepositDoc.createdAt)))
    (Answered (fun origin => matched ⟨none, origin, a, fairValueToSats v.vout.value⟩) (R.rest i))
  already : ∀ m, R.Performs i (matched m)
    (.deposit (.findOne (fun d => d.fairTxid == some v.txid && d.fairVout == some v.vout.n) none))
    (Answered (Found (fun _ => done) (matched m)) (R.rest i))
  unsolicited : ∀ m, m.origin = none → R.Performs i (matched m)
    (.deposit (.create (v.row .failed ⟨0⟩ (-1) m.fairAddress m.amountSats
      (m.amountSats * satsToWei))))
    (Answered (fun _ => done) (R.rest i))
  refuseIntent : ∀ m p, m.pending = some p → R.Performs i (matched m)
    (.deposit (.updateOne (fun d => d.id == p.id && true)
      (v.set .failed m.amountSats (m.amountSats * satsToWei))))
    (Answered (fun _ => done) (R.rest i))
  refuseNew : ∀ m origin, m.pending = none → m.origin = some origin →
    R.Performs i (matched m)
      (.deposit (.create (v.row .failed origin.baseAddress origin.hdIndex m.fairAddress
        m.amountSats (m.amountSats * satsToWei))))
      (Answered (fun _ => done) (R.rest i))
  clock : ∀ m, R.Performs i (matched m) .dateNow (Answered (clocked m) (R.rest i))
  daily : ∀ m origin now, m.origin = some origin → R.Performs i (clocked m now)
    (.deposit (.find (recentDeposit now origin.baseAddress) none))
    (Answered (fun rows => summed m (rows.map DepositDoc.amountSats).sum) (R.rest i))
  room : ∀ m n perAddressCapSats s, R.inv s →
    cfg.perAddressDailyCapFair.toSats = .ok perAddressCapSats →
    n + m.amountSats ≤ perAddressCapSats → summed m n s → within m s
  served : ∀ m, R.Performs i (within m) .firstServed
    (Answered (fun _ => within m) (R.rest i))
  supplyFirst : ∀ m, R.Performs i (within m) .totalSupply (Answered (supplyRead m) (R.rest i))
  inFlightSecond : ∀ m supply, R.Performs i (supplyRead m supply)
    (.deposit (.find inFlightDeposit none))
    (Answered (fun rows => bothRead m (supply + (rows.map DepositDoc.amountWei).sum))
      (R.rest i))
  inFlightFirst : ∀ m, R.Performs i (within m) (.deposit (.find inFlightDeposit none))
    (Answered (fun rows => inFlightRead m (rows.map DepositDoc.amountWei).sum) (R.rest i))
  supplySecond : ∀ m inFlight, R.Performs i (inFlightRead m inFlight) .totalSupply
    (Answered (fun supply => bothRead m (supply + inFlight)) (R.rest i))
  clear : ∀ m n maxTvl postFeeWei s, R.inv s → cfg.maxTvlFair.toBigInt = .ok maxTvl →
    n + postFeeWei ≤ maxTvl * satsPerFair * satsToWei → bothRead m n s →
    cleared m postFeeWei s
  confirmIntent : ∀ m p postFeeWei, m.pending = some p →
    applyFee (m.amountSats * satsToWei) cfg.bridgeFeeBps = .ok postFeeWei →
    R.Performs i (cleared m postFeeWei)
      (.deposit (.findOneAndUpdate (fun d => d.id == p.id && d.isOpen) none
        (v.set .confirmed m.amountSats postFeeWei)))
      (Answered (Found (fun d => confirmed m d.id postFeeWei) done) (R.rest i))
  confirmNew : ∀ m origin postFeeWei, m.pending = none → m.origin = some origin →
    applyFee (m.amountSats * satsToWei) cfg.bridgeFeeBps = .ok postFeeWei →
    R.Performs i (cleared m postFeeWei)
      (.deposit (.create (v.row .confirmed origin.baseAddress origin.hdIndex m.fairAddress
        m.amountSats postFeeWei)))
      (Created (fun d => confirmed m d.id postFeeWei) done (R.rest i))
  enqueue : ∀ m id origin postFeeWei, m.origin = some origin →
    R.Performs i (confirmed m id postFeeWei) (.addMintJob (v.job id origin postFeeWei))
    (Answered (fun _ => done) (R.rest i))
  notify : ∀ message, R.Performs i done (.webhook message)
    (Answered (fun _ => done) done)

namespace VoutOutline
variable {R : Rules sys S} {i : ι} {cfg : Config} {v : ScannedVout}

theorem matchVout (O : VoutOutline R i cfg v) :
    R.Triple i O.base (FairBridge.matchVout v) (Found O.matched O.done)
      (fun _ => R.rest i) := by
  rw [FairBridge.matchVout]
  split
  · rename_i ha
    exact .pure O.base_stable (O.unaddressed ha)
  · rename_i a ha
    refine .bind (M := fun isKnown s => if isKnown = true then O.known a s else O.done s)
      ?_ ?_
    · refine .step O.base_stable O.base_rest (O.address a ha) ?_
      intro isKnown
      cases isKnown with
      | true => exact O.known_stable a
      | false => exact O.done_stable
    · intro isKnown
      cases isKnown with
      | false => exact .pure O.done_stable fun _ _ h => h
      | true =>
          refine .bind (M := Found (fun p => O.matched
            ⟨some p, some p, a, fairValueToSats v.vout.value⟩) (O.known a)) ?_ ?_
          · refine .step (O.known_stable a) (O.known_rest a) (O.intent a ha) ?_
            intro p
            cases p with
            | none => exact O.known_stable a
            | some _ => exact O.matched_stable _
          · intro p
            cases p with
            | some _ => exact .pure (O.matched_stable _) fun _ _ h => h
            | none =>
                refine .bind (M := fun origin => O.matched
                  ⟨none, origin, a, fairValueToSats v.vout.value⟩) ?_ ?_
                · exact .step (O.known_stable a) (O.known_rest a) (O.earliest a ha)
                    fun _ => O.matched_stable _
                · exact fun _ => .pure (O.matched_stable _) fun _ _ h => h

theorem alert (O : VoutOutline R i cfg v) (reason : String) :
    R.Triple i O.done (FairBridge.alert cfg reason) (fun _ => O.done)
      (fun _ => R.rest i) :=
  (alert_keeps O.done_stable O.done_rest O.notify reason).weaken
    (fun _ _ h => h) (fun _ _ _ h => h) fun _ => O.done_rest

theorem refuseDeposit (O : VoutOutline R i cfg v) (m : MatchedDeposit) (origin : DepositDoc)
    (ho : m.origin = some origin) (reason : String) :
    R.Triple i (O.matched m) (FairBridge.refuseDeposit cfg v m origin reason)
      (fun _ => O.done) (fun _ => R.rest i) := by
  refine .bind (M := fun _ => O.done) ?_ fun _ => O.alert reason
  rw [persistTerminalDeposit]
  split
  · rename_i p hp
    exact .step (O.matched_stable m) (O.matched_rest m) (O.refuseIntent m p hp)
      fun _ => O.done_stable
  · rename_i hp
    refine .bind (M := fun _ => O.done) ?_ fun _ => .pure O.done_stable fun _ _ h => h
    exact .step (O.matched_stable m) (O.matched_rest m) (O.refuseNew m origin hp ho)
      fun _ => O.done_stable

theorem sumInFlightWei (M : Int → S → Prop) {P : S → Prop} (hP : R.Stable i P)
    (hrest : ∀ s, R.inv s → P s → R.rest i s)
    (hread : R.Performs i P (.deposit (.find inFlightDeposit none))
      (Answered (fun rows => M (rows.map DepositDoc.amountWei).sum) (R.rest i)))
    (hM : ∀ n, R.Stable i (M n)) :
    R.Triple i P FairBridge.sumInFlightWei M (fun _ => R.rest i) := by
  refine .bind (M := fun rows => M (rows.map DepositDoc.amountWei).sum) ?_ ?_
  · exact .step hP hrest hread fun _ => hM _
  · exact fun _ => .pure (hM _) fun _ _ h => h

/-- Whichever sum is read first, the two are known together. -/
theorem readSupplyAndInFlight (O : VoutOutline R i cfg v) (m : MatchedDeposit) :
    R.Triple i (O.within m) FairBridge.readSupplyAndInFlight
      (fun r => O.bothRead m (r.1 + r.2)) (fun _ => R.rest i) := by
  refine .bind (M := fun _ => O.within m) ?_ ?_
  · exact .step (O.within_stable m) (O.within_rest m) (O.served m)
      fun _ => O.within_stable m
  · intro first
    split
    · refine .bind (M := O.supplyRead m) ?_ ?_
      · exact .step (O.within_stable m) (O.within_rest m) (O.supplyFirst m)
          (O.supplyRead_stable m)
      · intro supply
        refine .bind (M := fun inFlight => O.bothRead m (supply + inFlight)) ?_ ?_
        · exact sumInFlightWei _ (O.supplyRead_stable m supply) (O.supplyRead_rest m supply)
            (O.inFlightSecond m supply) fun _ => O.bothRead_stable m _
        · exact fun _ => .pure (O.bothRead_stable m _) fun _ _ h => h
    · refine .bind (M := O.inFlightRead m) ?_ ?_
      · exact sumInFlightWei _ (O.within_stable m) (O.within_rest m) (O.inFlightFirst m)
          (O.inFlightRead_stable m)
      · intro inFlight
        refine .bind (M := fun supply => O.bothRead m (supply + inFlight)) ?_ ?_
        · exact .step (O.inFlightRead_stable m inFlight) (O.inFlightRead_rest m inFlight)
            (O.supplySecond m inFlight) fun _ => O.bothRead_stable m _
        · exact fun _ => .pure (O.bothRead_stable m _) fun _ _ h => h

theorem confirmDeposit (O : VoutOutline R i cfg v) (m : MatchedDeposit) (origin : DepositDoc)
    (ho : m.origin = some origin) {postFeeWei : Int}
    (hfee : applyFee (m.amountSats * satsToWei) cfg.bridgeFeeBps = .ok postFeeWei) :
    R.Triple i (O.cleared m postFeeWei) (FairBridge.confirmDeposit v m origin postFeeWei)
      (Found (fun id => O.confirmed m id postFeeWei) O.done) (fun _ => R.rest i) := by
  have hstable := O.cleared_stable m postFeeWei
  rw [FairBridge.confirmDeposit]
  split
  · rename_i p hp
    refine .bind (M := Found (fun d => O.confirmed m d.id postFeeWei) O.done) ?_ ?_
    · refine .step hstable (O.cleared_rest m postFeeWei)
        (O.confirmIntent m p postFeeWei hp hfee) ?_
      intro d
      cases d with
      | none => exact O.done_stable
      | some d => exact O.confirmed_stable m d.id postFeeWei
    · intro d
      cases d with
      | none => exact .pure O.done_stable fun _ _ h => h
      | some d => exact .pure (O.confirmed_stable m d.id postFeeWei) fun _ _ h => h
  · rename_i hp
    refine .tryCatch (M := fun e s => Created (fun d => O.confirmed m d.id postFeeWei) O.done
      (R.rest i) (.error e) s) ?_ ?_
    · refine .bind (M := fun d => O.confirmed m d.id postFeeWei) ?_ ?_
      · exact .request hstable (.of_rest (O.cleared_rest m postFeeWei))
          (O.confirmNew m origin postFeeWei hp ho hfee)
          (fun d => O.confirmed_stable m d.id postFeeWei)
          (Created.stable_error O.done_stable)
      · exact fun d => .pure (O.confirmed_stable m d.id postFeeWei) fun _ _ h => h
    · intro err
      split
      · rename_i hdup
        exact .pure (Created.stable_error O.done_stable err) fun _ _ h => h.2 hdup
      · exact .throw (Created.stable_error O.done_stable err) fun _ _ h => h.1

theorem creditDeposit (O : VoutOutline R i cfg v) (m : MatchedDeposit) (origin : DepositDoc)
    (ho : m.origin = some origin) {postFeeWei maxTvl : Int}
    (hfee : applyFee (m.amountSats * satsToWei) cfg.bridgeFeeBps = .ok postFeeWei)
    (hcap : cfg.maxTvlFair.toBigInt = .ok maxTvl) :
    R.Triple i (O.within m)
      (FairBridge.creditDeposit cfg v m origin postFeeWei (maxTvl * satsPerFair * satsToWei))
      (fun _ => O.done) (fun _ => R.rest i) := by
  refine .bind (O.readSupplyAndInFlight m) ?_
  intro r
  obtain ⟨supply, inFlight⟩ := r
  simp only
  split
  · exact (O.refuseDeposit m origin ho _).pre fun s hi h => O.bothRead_matched m _ s hi h
  · rename_i hroom
    refine Triple.pre (P := O.cleared m postFeeWei) ?_ ?_
    · refine .bind (O.confirmDeposit m origin ho hfee) ?_
      intro id
      cases id with
      | none => exact .pure O.done_stable fun _ _ h => h
      | some id =>
          exact .step (O.confirmed_stable m id postFeeWei) (O.confirmed_rest m id postFeeWei)
            (O.enqueue m id origin postFeeWei ho) fun _ => O.done_stable
    · exact fun s hi h => O.clear m _ maxTvl postFeeWei s hi hcap (by omega) h

theorem sumDaily (O : VoutOutline R i cfg v) (m : MatchedDeposit) (origin : DepositDoc)
    (ho : m.origin = some origin) :
    R.Triple i (O.matched m) (sumDailyDepositSatsForAddress origin.baseAddress) (O.summed m)
      (fun _ => R.rest i) := by
  refine .bind (M := O.clocked m) ?_ ?_
  · exact .step (O.matched_stable m) (O.matched_rest m) (O.clock m) (O.clocked_stable m)
  · intro now
    refine .bind (M := fun rows => O.summed m (rows.map DepositDoc.amountSats).sum) ?_
      fun _ => .pure (O.summed_stable m _) fun _ _ h => h
    exact .step (O.clocked_stable m now) (O.clocked_rest m now) (O.daily m origin now ho)
      fun _ => O.summed_stable m _

/-- A value that is read off the configuration, if it can be. -/
theorem configured (O : VoutOutline R i cfg v) (m : MatchedDeposit) {α β : Type}
    {x : Except JsError β} {f : β → Promise α} {Q : α → S → Prop}
    (h : ∀ b, x = .ok b → R.Triple i (O.matched m) (f b) Q (fun _ => R.rest i)) :
    R.Triple i (O.matched m) (Program.bind (Promise.of x) f) Q (fun _ => R.rest i) := by
  refine .bind (M := fun b s => O.matched m s ∧ x = .ok b) ?_ ?_
  · exact .ofExcept (O.matched_stable m) (fun _ hb _ _ hm => ⟨hm, hb⟩) (O.matched_rest m)
  · intro b
    refine .fact (fun _ _ hm => hm.2) ?_
    exact fun hb => (h b hb).pre fun _ _ hm => hm.1

theorem processMatch (O : VoutOutline R i cfg v) (m : MatchedDeposit) :
    R.Triple i (O.matched m) (FairBridge.processMatch cfg v m) (fun _ => O.done)
      (fun _ => R.rest i) := by
  refine O.configured m ?_
  intro postFeeWei hfee
  refine O.configured m ?_
  intro minSats _
  refine O.configured m ?_
  intro perAddressCapSats hdaily
  refine O.configured m ?_
  intro maxTvl hcap
  split
  · rename_i ho
    refine .bind (M := fun _ => O.done) ?_ fun _ => O.alert _
    exact .step (O.matched_stable m) (O.matched_rest m) (O.unsolicited m ho)
      fun _ => O.done_stable
  · rename_i origin ho
    split
    · exact O.refuseDeposit m origin ho _
    · refine .bind (O.sumDaily m origin ho) ?_
      intro daily
      split
      · exact (O.refuseDeposit m origin ho _).pre fun s hi h => O.summed_matched m _ s hi h
      · rename_i hroom
        refine (O.creditDeposit m origin ho hfee hcap).pre ?_
        exact fun s hi h => O.room m daily perAddressCapSats s hi hdaily (by omega) h

theorem processVout (O : VoutOutline R i cfg v) :
    R.Triple i O.base (FairBridge.processVout cfg v) (fun _ => O.done)
      (fun _ => R.rest i) := by
  refine .bind O.matchVout ?_
  intro m
  cases m with
  | none => exact .pure O.done_stable fun _ _ h => h
  | some m =>
      refine .bind (M := Found (fun _ => O.done) (O.matched m)) ?_ ?_
      · refine .step (O.matched_stable m) (O.matched_rest m) (O.already m) ?_
        intro d
        cases d with
        | none => exact O.matched_stable m
        | some _ => exact O.done_stable
      · intro d
        cases d with
        | some _ => exact .pure O.done_stable fun _ _ h => h
        | none => exact O.processMatch m

end VoutOutline

section Credit
variable {cfg : Config} {f : Faults ι}

/-- The same for rules without an interest in the cap on everything, and under which
the watcher may die anywhere: `within` is known until the deposit is confirmed. -/
structure CreditOutline (R : Rules (service cfg f) S) (i : ι) (v : ScannedVout) where
  base : S → Prop
  done : S → Prop
  known : String → S → Prop
  matched : MatchedDeposit → S → Prop
  clocked : MatchedDeposit → Nat → S → Prop
  summed : MatchedDeposit → Int → S → Prop
  within : MatchedDeposit → S → Prop
  confirmed : MatchedDeposit → ObjectId → Int → S → Prop
  base_stable : R.Stable i base
  done_stable : R.Stable i done
  known_stable : ∀ a, R.Stable i (known a)
  matched_stable : ∀ m, R.Stable i (matched m)
  clocked_stable : ∀ m now, R.Stable i (clocked m now)
  summed_stable : ∀ m n, R.Stable i (summed m n)
  within_stable : ∀ m, R.Stable i (within m)
  confirmed_stable : ∀ m id n, R.Stable i (confirmed m id n)
  rest : ∀ s, R.rest i s
  summed_matched : ∀ m n s, R.inv s → summed m n s → matched m s
  within_matched : ∀ m s, R.inv s → within m s → matched m s
  unaddressed : voutAddress v.vout = none → ∀ s, R.inv s → base s → done s
  address : ∀ a, voutAddress v.vout = some a → ∀ s, R.inv s → base s →
    ∃ t, R.world t = (R.world s).lookUp a v.key ∧ R.inv t ∧ R.guar i s t ∧
      if (R.world s).addressCache.contains a = true then known a t else done t
  intent : ∀ a, voutAddress v.vout = some a → ∀ s p, R.inv s → known a s →
    p ∈ (R.world s).deposits.docs → (p.fairAddress == a && p.isOpen) = true →
    matched ⟨some p, some p, a, fairValueToSats v.vout.value⟩ s
  earliest : ∀ a, voutAddress v.vout = some a → ∀ s origin, R.inv s → known a s →
    (∀ d, origin = some d → d ∈ (R.world s).deposits.docs ∧ (d.fairAddress == a) = true) →
    (origin = none → ∀ d ∈ (R.world s).deposits.docs, d.fairAddress ≠ a) →
    matched ⟨none, origin, a, fairValueToSats v.vout.value⟩ s
  already : ∀ m s d, R.inv s → matched m s → d ∈ (R.world s).deposits.docs →
    (d.fairTxid == some v.txid && d.fairVout == some v.vout.n) = true → done s
  unsolicited : ∀ m, m.origin = none → R.Performs i (matched m)
    (.deposit (.create (v.row .failed ⟨0⟩ (-1) m.fairAddress m.amountSats
      (m.amountSats * satsToWei))))
    (Answered (fun _ => done) (R.rest i))
  refuseIntent : ∀ m p, m.pending = some p → R.Performs i (matched m)
    (.deposit (.updateOne (fun d => d.id == p.id && true)
      (v.set .failed m.amountSats (m.amountSats * satsToWei))))
    (Answered (fun _ => done) (R.rest i))
  refuseNew : ∀ m origin, m.pending = none → m.origin = some origin →
    R.Performs i (matched m)
      (.deposit (.create (v.row .failed origin.baseAddress origin.hdIndex m.fairAddress
        m.amountSats (m.amountSats * satsToWei))))
      (Answered (fun _ => done) (R.rest i))
  clock : ∀ m s, R.inv s → matched m s → clocked m (R.world s).now s
  daily : ∀ m origin now, m.origin = some origin → R.Performs i (clocked m now)
    (.deposit (.find (recentDeposit now origin.baseAddress) none))
    (Answered (fun rows => summed m (rows.map DepositDoc.amountSats).sum) (R.rest i))
  room : ∀ m n perAddressCapSats s, R.inv s →
    cfg.perAddressDailyCapFair.toSats = .ok perAddressCapSats →
    n + m.amountSats ≤ perAddressCapSats → summed m n s → within m s
  record : ∀ m r s, R.inv s → within m s → ∃ t,
    R.world t = { R.world s with minedSinceRead := r } ∧ R.inv t ∧ R.guar i s t ∧ within m t
  confirmIntent : ∀ m p postFeeWei, m.pending = some p →
    applyFee (m.amountSats * satsToWei) cfg.bridgeFeeBps = .ok postFeeWei →
    R.Performs i (within m)
      (.deposit (.findOneAndUpdate (fun d => d.id == p.id && d.isOpen) none
        (v.set .confirmed m.amountSats postFeeWei)))
      (Answered (Found (fun d => confirmed m d.id postFeeWei) done) (R.rest i))
  confirmNew : ∀ m origin postFeeWei, m.pending = none → m.origin = some origin →
    applyFee (m.amountSats * satsToWei) cfg.bridgeFeeBps = .ok postFeeWei →
    R.Performs i (within m)
      (.deposit (.create (v.row .confirmed origin.baseAddress origin.hdIndex m.fairAddress
        m.amountSats postFeeWei)))
      (Created (fun d => confirmed m d.id postFeeWei) done (R.rest i))
  enqueue : ∀ m id origin postFeeWei, m.origin = some origin →
    R.Performs i (confirmed m id postFeeWei) (.addMintJob (v.job id origin postFeeWei))
    (Answered (fun _ => done) (R.rest i))

namespace CreditOutline
variable {R : Rules (service cfg f) S} {i : ι} {v : ScannedVout}

/-- The rows at an address, the earliest first. -/
theorem performs_earliest (O : CreditOutline R i v) {a : String}
    (ha : voutAddress v.vout = some a) :
    R.Performs i (O.known a)
      (.deposit (.findOne (fun d => d.fairAddress == a) (some DepositDoc.createdAt)))
      (Answered (fun origin => O.matched ⟨none, origin, a, fairValueToSats v.vout.value⟩)
        (R.rest i)) := by
  refine performs_read (fun _ => rfl) ?_ ?_ fun s _ _ _ => O.rest s
  · intro w x w' hx
    cases hx
    rfl
  · intro s x hi hs hx
    cases hx
    refine O.earliest a ha s _ hi hs (fun d hd => pick_some hd) ?_
    intro hnone d hd hda
    exact absurd (pick_none hnone hd) (by simpa using hda)

theorem performs_address (O : CreditOutline R i v) {a : String}
    (ha : voutAddress v.vout = some a) :
    R.Performs i O.base (.knownDepositAddress a v.key)
      (Answered (fun isKnown s => if isKnown = true then O.known a s else O.done s)
        (R.rest i)) := by
  refine performs (fun s _ hi _ _ _ => ⟨s, rfl, hi, R.guar_refl i s, O.rest s⟩) ?_
  intro s x w out hi hs _ hx
  cases hx
  obtain ⟨t, ht, hit, hg, hM⟩ := O.address a ha s hi hs
  exact ⟨t, ht, hit, hg, fun _ => hM, fun _ _ _ => O.rest t⟩

theorem performs_clock (O : CreditOutline R i v) (m : MatchedDeposit) :
    R.Performs i (O.matched m) .dateNow (Answered (O.clocked m) (R.rest i)) := by
  refine performs_read (fun _ => rfl) ?_ ?_ fun s _ _ _ => O.rest s
  · intro w x w' hx
    cases hx
    rfl
  · intro s x hi hs hx
    cases hx
    exact O.clock m s hi hs

theorem performs_sum (O : CreditOutline R i v) (m : MatchedDeposit) :
    R.Performs i (O.within m) (.deposit (.find inFlightDeposit none))
      (Answered (fun _ => O.within m) (R.rest i)) :=
  Deposit.performs_find (fun _ _ _ h _ => h) fun s _ _ => O.rest s

theorem performs_served (O : CreditOutline R i v) (m : MatchedDeposit) :
    R.Performs i (O.within m) .firstServed (Answered (fun _ => O.within m) (R.rest i)) := by
  refine performs (fun s _ hi _ _ _ => ⟨s, rfl, hi, R.guar_refl i s, O.rest s⟩) ?_
  intro s x w out hi hs _ hx
  cases hx
  obtain ⟨t, ht, hit, hg, hM⟩ := O.record m none s hi hs
  exact ⟨t, ht, hit, hg, fun _ => hM, fun _ _ _ => O.rest t⟩

theorem performs_supply (O : CreditOutline R i v) (m : MatchedDeposit) :
    R.Performs i (O.within m) .totalSupply (Answered (fun _ => O.within m) (R.rest i)) := by
  refine performs (fun s _ hi _ _ _ => ⟨s, rfl, hi, R.guar_refl i s, O.rest s⟩) ?_
  intro s x w out hi hs _ hx
  cases hx
  obtain ⟨t, ht, hit, hg, hM⟩ := O.record m (some []) s hi hs
  exact ⟨t, ht, hit, hg, fun _ => hM, fun _ _ _ => O.rest t⟩

/-- The sums of the cap on everything tell nothing. -/
def toVoutOutline (O : CreditOutline R i v) : VoutOutline R i cfg v where
  base := O.base
  done := O.done
  known := O.known
  matched := O.matched
  clocked := O.clocked
  summed := O.summed
  within := O.within
  supplyRead m _ := O.within m
  inFlightRead m _ := O.within m
  bothRead m _ := O.within m
  cleared m _ := O.within m
  confirmed := O.confirmed
  base_stable := O.base_stable
  done_stable := O.done_stable
  known_stable := O.known_stable
  matched_stable := O.matched_stable
  clocked_stable := O.clocked_stable
  summed_stable := O.summed_stable
  within_stable := O.within_stable
  supplyRead_stable m _ := O.within_stable m
  inFlightRead_stable m _ := O.within_stable m
  bothRead_stable m _ := O.within_stable m
  cleared_stable m _ := O.within_stable m
  confirmed_stable := O.confirmed_stable
  base_rest s _ _ := O.rest s
  done_rest s _ _ := O.rest s
  known_rest _ s _ _ := O.rest s
  matched_rest _ s _ _ := O.rest s
  clocked_rest _ _ s _ _ := O.rest s
  summed_matched := O.summed_matched
  within_rest _ s _ _ := O.rest s
  supplyRead_rest _ _ s _ _ := O.rest s
  inFlightRead_rest _ _ s _ _ := O.rest s
  bothRead_matched m _ := O.within_matched m
  cleared_rest _ _ s _ _ := O.rest s
  confirmed_rest _ _ _ s _ _ := O.rest s
  unaddressed := O.unaddressed
  address _ ha := O.performs_address ha
  intent a ha := Deposit.performs_findOne (fun s p hi hs hp hf => O.intent a ha s p hi hs hp hf)
    (fun _ _ h => h) fun s _ _ => O.rest s
  earliest _ ha := O.performs_earliest ha
  already m := Deposit.performs_findOne (fun s d hi hs hd hf => O.already m s d hi hs hd hf)
    (fun _ _ h => h) fun s _ _ => O.rest s
  unsolicited := O.unsolicited
  refuseIntent := O.refuseIntent
  refuseNew := O.refuseNew
  clock := O.performs_clock
  daily := O.daily
  room := O.room
  served := O.performs_served
  supplyFirst := O.performs_supply
  inFlightSecond m _ := O.performs_sum m
  inFlightFirst := O.performs_sum
  supplySecond m _ := O.performs_supply m
  clear _ _ _ _ _ _ _ _ h := h
  confirmIntent := O.confirmIntent
  confirmNew := O.confirmNew
  enqueue := O.enqueue
  notify _ := performs_webhook fun _ _ h => h

end CreditOutline
end Credit

section Block
variable {R : Rules sys S} {i : ι} {cfg : Config} {height tip : Nat}

/-- The vouts of a block one after the other; `left` is known of those still to be
scanned. -/
theorem processVouts_chain {left : List (Txid × TxVout) → S → Prop}
    (hleft : ∀ vouts, R.Stable i (left vouts))
    (hscan : ∀ x vouts, R.Triple i (left (x :: vouts))
      (processVout cfg ⟨x.1, x.2, height, tip⟩) (fun _ => left vouts) (fun _ => R.rest i))
    (vouts : List (Txid × TxVout)) :
    R.Triple i (left vouts) (processVouts cfg height tip vouts) (fun _ => left [])
      (fun _ => R.rest i) := by
  induction vouts with
  | nil => exact .pure (hleft []) fun _ _ h => h
  | cons x vouts ih => exact .bind (hscan x vouts) fun _ => ih

theorem processBlock_chain (start : S → Prop) (left : Block → List (Txid × TxVout) → S → Prop)
    (hstart : R.Stable i start) (hrest : ∀ s, R.inv s → start s → R.rest i s)
    (hleft : ∀ b vouts, R.Stable i (left b vouts))
    (hread : R.Performs i start (.getBlockAtHeight height)
      (Answered (fun b => left b b.vouts) (R.rest i)))
    (hscan : ∀ b x vouts, R.Triple i (left b (x :: vouts))
      (processVout cfg ⟨x.1, x.2, height, tip⟩) (fun _ => left b vouts) (fun _ => R.rest i)) :
    R.Triple i start (processBlock cfg height tip) (fun _ s => ∃ b, left b [] s)
      (fun _ => R.rest i) := by
  refine .bind (M := fun b => left b b.vouts) ?_ ?_
  · exact .step hstart hrest hread fun b => hleft b b.vouts
  · intro b
    exact (processVouts_chain (hleft b) (hscan b) b.vouts).weaken
      (fun _ _ h => h) (fun _ _ _ h => ⟨b, h⟩) fun _ _ _ h => h

end Block

/-- The same for the pass that enqueues old CONFIRMED deposits again: `listed` of the
rows whose jobs are still to be added. -/
structure OrphanDepositOutline (R : Rules sys S) (i : ι) where
  base : S → Prop
  listed : List DepositDoc → S → Prop
  base_stable : R.Stable i base
  listed_stable : ∀ ds, R.Stable i (listed ds)
  base_rest : ∀ s, R.inv s → base s → R.rest i s
  listed_rest : ∀ ds s, R.inv s → listed ds s → R.rest i s
  clock : R.Performs i base .dateNow (Answered (fun _ => base) (R.rest i))
  find : ∀ now, R.Performs i base (.deposit (.find (orphanDeposit now) (some 50)))
    (Answered listed (R.rest i))
  skip : ∀ d ds s, R.inv s → d.job = none → listed (d :: ds) s → listed ds s
  enqueue : ∀ d ds job, d.job = some job → R.Performs i (listed (d :: ds)) (.addMintJob job)
    (Answered (fun _ => listed ds) (R.rest i))

namespace OrphanDepositOutline
variable {R : Rules sys S} {i : ι}

theorem enqueueMints (O : OrphanDepositOutline R i) (ds : List DepositDoc) :
    R.Triple i (O.listed ds) (FairBridge.enqueueMints ds) (fun _ => O.listed [])
      (fun _ => R.rest i) := by
  induction ds with
  | nil => exact .pure (O.listed_stable []) fun _ _ h => h
  | cons d ds ih =>
      rw [FairBridge.enqueueMints]
      split
      · rename_i hnone
        exact ih.pre fun s hi h => O.skip d ds s hi hnone h
      · rename_i job hjob
        refine .bind (M := fun _ => O.listed ds) ?_ fun _ => ih
        exact .step (O.listed_stable _) (O.listed_rest _) (O.enqueue d ds job hjob)
          fun _ => O.listed_stable ds

theorem reconcileOrphanDeposits (O : OrphanDepositOutline R i) :
    R.Triple i O.base FairBridge.reconcileOrphanDeposits (fun _ => O.listed [])
      (fun _ => R.rest i) := by
  refine .bind (M := fun _ => O.base) ?_ ?_
  · exact .step O.base_stable O.base_rest O.clock fun _ => O.base_stable
  · intro now
    refine .bind (M := O.listed) ?_ O.enqueueMints
    exact .step O.base_stable O.base_rest (O.find now) O.listed_stable

end OrphanDepositOutline
end FairBridge

import FairBridge.Service

/-!
Whose outputs are credited. A scan goes by the first address a script lists and does not
look at the others, so an output that several keys have to spend together is credited like
one that the bridge can spend alone.
-/

namespace FairBridge
open Store Async

/-- The addresses that the node lists for an output. -/
def TxVout.listed (vout : TxVout) : List String :=
  vout.addresses.getD [] ++ vout.address.toList

/-- No other address is listed beside the one that the output is matched by. -/
def TxVout.SolelyPays (vout : TxVout) : Prop :=
  ∀ a, voutAddress vout = some a → ∀ b ∈ vout.listed, b = a

/-- The vout that a request makes a CONFIRMED deposit of, if it does. -/
def Op.credits {β : Type} : Op β → Option (Txid × Nat)
  | .deposit (.create d) =>
      if d.status = .confirmed then d.fairTxid.bind fun t => d.fairVout.map (t, ·) else none
  | .deposit (.findOneAndUpdate _ _ u) | .deposit (.updateOne _ u) =>
      if u.status = some .confirmed then u.fairTxid.bind fun t => u.fairVout.map (t, ·) else none
  | _ => none

/-- The policy numbers convert, and the output is not below the minimum. -/
structure Creditable (cfg : Config) (vout : TxVout) : Prop where
  fee : ∃ postFeeWei,
    applyFee (fairValueToSats vout.value * satsToWei) cfg.bridgeFeeBps = .ok postFeeWei
  minimum : ∃ minSats, cfg.minDepositFair.toSats = .ok minSats ∧
    minSats ≤ fairValueToSats vout.value
  dailyCap : ∃ perAddressCapSats, cfg.perAddressDailyCapFair.toSats = .ok perAddressCapSats
  tvl : ∃ maxTvl, cfg.maxTvlFair.toBigInt = .ok maxTvl

section Requests
variable {cfg : Config} {v : ScannedVout} {m : MatchedDeposit}

/-- A request that credits at most the vout in hand, and that only if it can be credited. -/
def OwnCredit (cfg : Config) (v : ScannedVout) {β : Type} (op : Op β) : Prop :=
  ∀ key, op.credits = some key → key = (v.txid, v.vout.n) ∧ Creditable cfg v.vout

theorem call_quiet {β : Type} {op : Op β} (h : op.credits = none) :
    (call op).Only (OwnCredit cfg v) := .request fun _ hkey => by cases h.symm.trans hkey

theorem alert_quiet (message : String) : (alert cfg message).Only (OwnCredit cfg v) :=
  alert_only (fun _ _ hkey => by cases hkey) message

theorem refuseDeposit_quiet (origin : DepositDoc) (reason : String) :
    (refuseDeposit cfg v m origin reason).Only (OwnCredit cfg v) := by
  refine .bind ?_ fun _ => alert_quiet _
  rw [persistTerminalDeposit]
  split
  · exact call_quiet rfl
  · exact .bind (call_quiet rfl) fun _ => trivial

theorem readSupplyAndInFlight_quiet :
    readSupplyAndInFlight.Only (OwnCredit cfg v) := by
  have hsupply : readWfairTotalSupply.Only (OwnCredit cfg v) := call_quiet rfl
  have hinFlight : sumInFlightWei.Only (OwnCredit cfg v) := .bind (call_quiet rfl) fun _ => trivial
  refine .bind (call_quiet rfl) fun first => ?_
  split
  · exact .bind hsupply fun _ => .bind hinFlight fun _ => trivial
  · exact .bind hinFlight fun _ => .bind hsupply fun _ => trivial

theorem confirmDeposit_own (h : Creditable cfg v.vout) (origin : DepositDoc) (postFeeWei : Int) :
    (confirmDeposit v m origin postFeeWei).Only (OwnCredit cfg v) := by
  rw [confirmDeposit]
  split
  · refine .bind (.request fun key hkey => ?_) fun found => ?_
    · cases hkey
      exact ⟨rfl, h⟩
    · cases found <;> trivial
  · refine .tryCatch (.bind (.request fun key hkey => ?_) fun _ => trivial) fun err => ?_
    · cases hkey
      exact ⟨rfl, h⟩
    · split <;> trivial

theorem creditDeposit_own (h : Creditable cfg v.vout) (origin : DepositDoc)
    (postFeeWei maxTvlWei : Int) :
    (creditDeposit cfg v m origin postFeeWei maxTvlWei).Only (OwnCredit cfg v) := by
  refine .bind readSupplyAndInFlight_quiet fun read => ?_
  simp only
  split
  · exact refuseDeposit_quiet _ _
  · refine .bind (confirmDeposit_own h _ _) fun confirmed => ?_
    cases confirmed with
    | none => trivial
    | some _ => exact call_quiet rfl

theorem processMatch_own (hm : m.amountSats = fairValueToSats v.vout.value) :
    (processMatch cfg v m).Only (OwnCredit cfg v) := by
  refine .bind_ofExcept fun postFeeWei hfee => .bind_ofExcept fun minSats hmin =>
    .bind_ofExcept fun perAddressCapSats hcap => .bind_ofExcept fun maxTvl htvl => ?_
  cases m.origin with
  | none => exact .bind (call_quiet rfl) fun _ => alert_quiet _
  | some origin =>
      simp only
      split
      · exact refuseDeposit_quiet _ _
      · rename_i hamount
        refine .bind (.bind (call_quiet rfl) fun _ => .bind (call_quiet rfl) fun _ => trivial)
          fun dailySoFar => ?_
        split
        · exact refuseDeposit_quiet _ _
        · refine creditDeposit_own ⟨⟨postFeeWei, ?_⟩, ⟨minSats, hmin, ?_⟩, ⟨_, hcap⟩, ⟨_, htvl⟩⟩ _ _ _
          · rw [← hm]
            exact hfee
          · rw [← hm]
            omega

/-- A match carries the amount of its vout. -/
theorem matchVout_own {α : Type} {f : Option MatchedDeposit → Promise α}
    (hnone : (f none).Only (OwnCredit cfg v))
    (hsome : ∀ m : MatchedDeposit, m.amountSats = fairValueToSats v.vout.value →
      (f (some m)).Only (OwnCredit cfg v)) :
    ((matchVout v).bind f).Only (OwnCredit cfg v) := by
  rw [matchVout]
  split
  · exact hnone
  · refine ⟨fun _ h => (by cases h), fun known => ?_⟩
    cases known with
    | error _ => trivial
    | ok known =>
        cases known with
        | false => exact hnone
        | true =>
            refine ⟨fun _ h => (by cases h), fun pending => ?_⟩
            cases pending with
            | error _ => trivial
            | ok pending =>
                cases pending with
                | some pending => exact hsome _ rfl
                | none =>
                    refine ⟨fun _ h => (by cases h), fun origin => ?_⟩
                    cases origin with
                    | error _ => trivial
                    | ok origin => exact hsome _ rfl

/-- All that the scan of a vout credits is that vout. -/
theorem processVout_own : (processVout cfg v).Only (OwnCredit cfg v) := by
  refine matchVout_own trivial fun m hm => .bind (call_quiet rfl) fun already => ?_
  cases already with
  | some _ => trivial
  | none => exact processMatch_own hm

end Requests

section Scan
variable {cfg : Config} {height tip : Nat} {ok : {β : Type} → Op β → Prop}

/-- A scan whose answers say nothing of a vout goes on to the next. -/
theorem processVouts_skip {x : Txid × TxVout} {vouts : List (Txid × TxVout)}
    (h : (processVouts cfg height tip (x :: vouts)).Only ok) :
    (processVouts cfg height tip vouts).Only ok := by
  obtain ⟨txid, vout⟩ := x
  rw [processVouts, processVout, matchVout] at h
  simp only at h
  split at h
  · exact h
  · exact h.2 (.ok false)

/-- A row with the amount, of whatever address. -/
def anyRow (amountSats : Int) : DepositDoc where
  baseAddress := ⟨0⟩
  fairAddress := ""
  hdIndex := 0
  amountSats := amountSats

/-- There are answers with which a match is credited. -/
theorem credited_of_match {v : ScannedVout} {m : MatchedDeposit} {pending : DepositDoc}
    {k : Unit → Promise Unit} (h : ((processMatch cfg v m).bind k).Only ok)
    (hcredit : Creditable cfg v.vout) (hm : m.amountSats = fairValueToSats v.vout.value)
    (hpending : m.pending = some pending) (horigin : m.origin = some pending) :
    ∃ filter u, ok (.deposit (.findOneAndUpdate filter none u) : Op (Option DepositDoc)) ∧
      Op.credits (.deposit (.findOneAndUpdate filter none u) : Op (Option DepositDoc)) =
        some (v.txid, v.vout.n) := by
  obtain ⟨postFeeWei, hfee⟩ := hcredit.fee
  obtain ⟨minSats, hmin, hamount⟩ := hcredit.minimum
  obtain ⟨perAddressCapSats, hcap⟩ := hcredit.dailyCap
  obtain ⟨maxTvl, htvl⟩ := hcredit.tvl
  rw [← hm] at hfee hamount
  rw [processMatch] at h
  simp only [hfee, hmin, hcap, htvl, horigin, Promise.of, Program.ofExcept, Program.bind_eq,
    Program.pure_bind, if_neg (Int.not_lt.mpr hamount)] at h
  -- the daily sum leaves room for the amount
  obtain ⟨_, hrows⟩ := h.2 (.ok 0)
  have hdaily := hrows (.ok [anyRow (perAddressCapSats - m.amountSats)])
  have hroom : ¬ perAddressCapSats <
      ([anyRow (perAddressCapSats - m.amountSats)].map DepositDoc.amountSats).sum +
        m.amountSats := by
    simp [anyRow]
  simp only [Program.ofExcept, Program.pure_bind, Program.pure_eq, gt_iff_lt, if_neg hroom,
    creditDeposit] at hdaily
  -- and so does the supply
  obtain ⟨_, hsupply⟩ := hdaily.2 (.ok true)
  obtain ⟨_, hinFlight⟩ := hsupply (.ok (maxTvl * satsPerFair * satsToWei - postFeeWei))
  have htvl := hinFlight (.ok [])
  have hleft : ¬ maxTvl * satsPerFair * satsToWei < maxTvl * satsPerFair * satsToWei -
      postFeeWei + (([] : List DepositDoc).map DepositDoc.amountWei).sum + postFeeWei := by
    simp
  simp only [Program.ofExcept, Program.pure_bind, Program.pure_eq, if_neg hleft, confirmDeposit,
    hpending] at htvl
  exact ⟨_, _, htvl.1, rfl⟩

theorem credited_of_creditable {x : Txid × TxVout} {vouts : List (Txid × TxVout)}
    (h : (processVouts cfg height tip (x :: vouts)).Only ok) (hx : Creditable cfg x.2)
    {a : String} (ha : voutAddress x.2 = some a) :
    ∃ filter u, ok (.deposit (.findOneAndUpdate filter none u) : Op (Option DepositDoc)) ∧
      Op.credits (.deposit (.findOneAndUpdate filter none u) : Op (Option DepositDoc)) =
        some (x.1, x.2.n) := by
  obtain ⟨txid, vout⟩ := x
  rw [processVouts, processVout, matchVout] at h
  simp only [ha] at h
  obtain ⟨_, hpending⟩ := h.2 (.ok true)
  obtain ⟨_, halready⟩ := hpending (.ok (some (anyRow 0)))
  exact credited_of_match (v := ⟨txid, vout, height, tip⟩)
    (m := ⟨some (anyRow 0), some (anyRow 0), a, fairValueToSats vout.value⟩)
    (halready (.ok none)) hx rfl rfl rfl

end Scan

/-- What a request credits is an output of the block that only its matched address owns. -/
def CreditsSole (b : Block) {β : Type} (op : Op β) : Prop :=
  ∀ txid n, op.credits = some (txid, n) →
    ∃ vout, (txid, vout) ∈ b.vouts ∧ vout.n = n ∧ vout.SolelyPays

theorem processVouts_own {cfg : Config} {height tip : Nat} {b : Block}
    (h : ∀ x ∈ b.vouts, Creditable cfg x.2 → x.2.SolelyPays)
    {vouts : List (Txid × TxVout)} (hsub : ∀ x ∈ vouts, x ∈ b.vouts) :
    (processVouts cfg height tip vouts).Only (CreditsSole b) := by
  induction vouts with
  | nil => trivial
  | cons x vouts ih =>
      obtain ⟨txid, vout⟩ := x
      have hx := hsub (txid, vout) List.mem_cons_self
      refine .bind ?_ fun _ => ih fun y hy => hsub y (List.mem_cons_of_mem _ hy)
      refine (processVout_own (v := ⟨txid, vout, height, tip⟩)).mono fun op hop => ?_
      intro t n hcredits
      obtain ⟨hkey, hcredit⟩ := hop _ hcredits
      cases hkey
      exact ⟨vout, hx, rfl, h _ hx hcredit⟩

theorem Block.vout_eq {b : Block} {x y : Txid × TxVout} (hx : x ∈ b.vouts) (hy : y ∈ b.vouts)
    (htxid : x.1 = y.1) (hn : x.2.n = y.2.n) : x = y :=
  List.inj_on_of_nodup_map b.vouts_distinct hx hy (Prod.ext htxid hn)

namespace Sample

/-- A bare multisig output of 10 FAIR, the first of whose two addresses is an intent's. -/
def multisigVout : TxVout where
  value := 10
  n := 0
  addresses := some ["fAddress", "stranger"]

def multisigBlock : Block where
  tx := [⟨txid, [multisigVout]⟩]
  distinct := by simp

def multisigWorld : World :=
  { capWorld with fair := { blocks := [multisigBlock] } }

end Sample

end FairBridge

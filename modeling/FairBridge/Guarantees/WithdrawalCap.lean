import FairBridge.Model.Frame
import FairBridge.Signer.ReleaseOutline
import FairBridge.Worker.BurnOutline

/-!
The daily cap on the withdrawals of an address. The sum that is checked is taken over the
last day, and no row comes in between the check and the row it makes room for. So every day
that takes in the new row is within the cap, whether or not it ends at the check.
-/

namespace FairBridge
open Store Async Async.Rules

/-- One watcher, and the runs of the signer one after the other for every row. -/
inductive WithdrawalSlot where
  | watcher
  | signer (row : ObjectId)
  deriving DecidableEq

/-- Any request may raise, and any run may die. -/
def withdrawalRuns : Faults WithdrawalSlot where
  ready _ i t := match i, t with
    | .watcher, .processLog _ | .watcher, .reconcileOrphanWithdrawals
    | .watcher, .startBaseWatcher _ => true
    | .signer row, .signRelease job => job.withdrawalId == row
    | _, _ => false
  may _ _ _ _ := true
  mayKill _ _ _ := true
  row _ := none

/-- The day that begins at `t`. -/
def dayFrom (t createdAt : Nat) : Bool := t ≤ createdAt && createdAt ≤ t + dayMs

/-- A withdrawal of the address that is not refused, created when `p` says. -/
def WithdrawalDoc.countsFor (d : WithdrawalDoc) (a : Address) (p : Nat → Bool) : Bool :=
  d.fromBaseAddress == a && p d.createdAt && d.status != .failed

namespace World

def withdrawalSats (w : World) (a : Address) (p : Nat → Bool) : Int :=
  ((w.withdrawals.docs.filter fun d => d.countsFor a p).map WithdrawalDoc.amountSats).sum

/-- The same, but a row does not count for less than nothing. -/
def heldSats (w : World) (a : Address) (p : Nat → Bool) : Int :=
  (w.withdrawals.docs.map fun d => if d.countsFor a p then max d.amountSats 0 else 0).sum

end World

section Sums
variable {w w' : World} {a : Address} {p p' : Nat → Bool}

theorem withdrawalSats_le : w.withdrawalSats a p ≤ w.heldSats a p := by
  rw [World.withdrawalSats, Collection.sum_filter, World.heldSats]
  refine List.sum_le_sum fun d _ => ?_
  split
  · exact le_max_left _ _
  · exact Int.le_refl 0

theorem heldSats_nonneg : 0 ≤ w.heldSats a p := by
  refine List.sum_nonneg ?_
  intro n hn
  obtain ⟨d, _, rfl⟩ := List.mem_map.mp hn
  split
  · exact le_max_right _ _
  · exact Int.le_refl 0

theorem heldSats_mono (h : ∀ c, p c = true → p' c = true) : w.heldSats a p ≤ w.heldSats a p' := by
  refine List.sum_le_sum fun d _ => ?_
  by_cases hd : d.countsFor a p = true
  · have hd' : d.countsFor a p' = true := by
      simp only [WithdrawalDoc.countsFor, Bool.and_eq_true] at hd ⊢
      exact ⟨⟨hd.1.1, h _ hd.1.2⟩, hd.2⟩
    rw [if_pos hd, if_pos hd']
  · rw [if_neg hd]
    split
    · exact le_max_right _ _
    · exact Int.le_refl 0

theorem heldSats_insert (w : World) (a : Address) (p : Nat → Bool) (d : WithdrawalDoc) :
    (w.insertWithdrawal d).heldSats a p = w.heldSats a p +
      if { d with id := w.withdrawals.nextId, createdAt := w.now }.countsFor a p then
        max d.amountSats 0
      else 0 :=
  w.withdrawals.sum_insert (fun d => if d.countsFor a p then max d.amountSats 0 else 0) w.now d

/-- An update of a row's status does not bring a refused row back. -/
theorem heldSats_update {id : ObjectId} {d : WithdrawalDoc} {u : WithdrawalSet}
    (hd : w.withdrawals.get id = some d)
    (hkeep : d.status = .failed → (u.apply d).status = .failed) :
    (w.setWithdrawal id u).heldSats a p ≤ w.heldSats a p := by
  have hsum : (w.setWithdrawal id u).heldSats a p = _ := w.withdrawals.sum_modify
    (fun d => if d.countsFor a p then max d.amountSats 0 else 0) u hd
  have hle : (if (u.apply d).countsFor a p then max (u.apply d).amountSats 0 else 0) ≤
      if d.countsFor a p then max d.amountSats 0 else 0 := by
    by_cases hc : (u.apply d).countsFor a p = true
    · have hc' : d.countsFor a p = true := by
        simp only [WithdrawalDoc.countsFor, Bool.and_eq_true, bne_iff_ne] at hc ⊢
        exact ⟨hc.1, fun hf => hc.2 (hkeep hf)⟩
      rw [if_pos hc, if_pos hc']
      exact Int.le_refl _
    · rw [if_neg hc]
      split
      · exact le_max_right _ _
      · exact Int.le_refl 0
  rw [hsum]
  change w.heldSats a p - _ + _ ≤ _
  have hset : withdrawalSchema.set u d = u.apply d := rfl
  rw [hset]
  omega

end Sums

/-- No part of the fee is more than the whole, so that no net amount is negative. -/
def FeeWithin (cfg : Config) : Prop :=
  ∀ fee, cfg.bridgeFeeBps.toBigInt = .ok fee → fee ≤ bpsDenom

structure WithinCap (cfg : Config) (cap : Int) (w : World) : Prop where
  listed : ∀ d ∈ w.withdrawals.docs, d.status ≠ .detected
  amounts : FeeWithin cfg → ∀ d ∈ w.withdrawals.docs, 0 ≤ d.amountSats
  capped : ∀ a t, w.heldSats a (dayFrom t) ≤ cap

section Books
variable {cfg : Config} {cap : Int} {w w' : World}

theorem WithinCap.same (h : WithinCap cfg cap w) (hw : w'.withdrawals = w.withdrawals) :
    WithinCap cfg cap w' := by
  refine ⟨by rw [hw]; exact h.listed, by rw [hw]; exact h.amounts, ?_⟩
  intro a t
  rw [World.heldSats, hw]
  exact h.capped a t

/-- A row comes in that is refused, or that every day of its own leaves room for. -/
theorem WithinCap.insert (h : WithinCap cfg cap w) {d : WithdrawalDoc}
    (hst : d.status ≠ .detected) (hamount : FeeWithin cfg → 0 ≤ d.amountSats)
    (hroom : d.status ≠ .failed → ∀ t, dayFrom t w.now = true →
      w.heldSats d.fromBaseAddress (dayFrom t) + max d.amountSats 0 ≤ cap) :
    WithinCap cfg cap (w.insertWithdrawal d) := by
  refine ⟨?_, ?_, ?_⟩
  · intro e he
    cases List.mem_append.mp he with
    | inl he => exact h.listed e he
    | inr he =>
        rw [List.mem_singleton.mp he]
        exact hst
  · intro hfee e he
    cases List.mem_append.mp he with
    | inl he => exact h.amounts hfee e he
    | inr he =>
        rw [List.mem_singleton.mp he]
        exact hamount hfee
  · intro a t
    have hcap := h.capped a t
    rw [heldSats_insert]
    split
    · rename_i hc
      simp only [WithdrawalDoc.countsFor, Bool.and_eq_true, beq_iff_eq, bne_iff_ne] at hc
      obtain ⟨⟨ha, hnow⟩, hfailed⟩ := hc
      have hfit := hroom hfailed t hnow
      rw [ha] at hfit
      exact hfit
    · omega

theorem WithinCap.update (h : WithinCap cfg cap w) {id : ObjectId} {d : WithdrawalDoc}
    {u : WithdrawalSet} (hd : w.withdrawals.get id = some d)
    (hst : u.status ≠ some .detected)
    (hkeep : d.status = .failed → (u.apply d).status = .failed) :
    WithinCap cfg cap (w.setWithdrawal id u) := by
  refine ⟨?_, ?_, fun a t => (heldSats_update hd hkeep).trans (h.capped a t)⟩
  · intro e he
    cases Collection.mem_modify.mp he with
    | inr he => exact h.listed e he.1
    | inl he =>
        obtain ⟨d', hd', rfl⟩ := he
        cases hd.symm.trans hd'
        change (u.apply d).status ≠ .detected
        cases hu : u.status with
        | none => simpa [WithdrawalSet.apply, hu] using h.listed d (Collection.get_mem hd)
        | some st =>
            rw [hu] at hst
            simpa [WithdrawalSet.apply, hu] using hst
  · intro hfee e he
    cases Collection.mem_modify.mp he with
    | inr he => exact h.amounts hfee e he.1
    | inl he =>
        obtain ⟨d', hd', rfl⟩ := he
        exact h.amounts hfee d' (Collection.get_mem hd')

end Books

/-- What a run of the signer does to the sums and to the other rows. -/
structure OwnRowOnly (row : ObjectId) (s t : World) : Prop where
  held : ∀ a p, t.heldSats a p ≤ s.heldSats a p
  others : ∀ id, id ≠ row → t.withdrawals.get id = s.withdrawals.get id
  now : t.now = s.now

/-- What the watcher relies on: nobody else adds to a sum, and the clock does not go back. -/
structure NothingAdded (s t : World) : Prop where
  held : ∀ a p, t.heldSats a p ≤ s.heldSats a p
  now : s.now ≤ t.now

/-- The rows there are stay as they are. -/
def RowsStay (s t : World) : Prop :=
  ∀ id d, s.withdrawals.get id = some d → t.withdrawals.get id = some d

def WithdrawalSlot.rely : WithdrawalSlot → World → World → Prop
  | .watcher, s, t => NothingAdded s t
  | .signer row, s, t =>
      ∀ d, s.withdrawals.get row = some d → t.withdrawals.get row = some d

def WithdrawalSlot.guar : WithdrawalSlot → World → World → Prop
  | .watcher => RowsStay
  | .signer row => OwnRowOnly row

theorem NothingAdded.refl (s : World) : NothingAdded s s := ⟨fun _ _ => Int.le_refl _, Nat.le_refl _⟩

theorem NothingAdded.trans {s t u : World} (h : NothingAdded s t) (h' : NothingAdded t u) :
    NothingAdded s u :=
  ⟨fun a p => (h'.held a p).trans (h.held a p), h.now.trans h'.now⟩

theorem heldSats_same {s t : World} (h : t.withdrawals = s.withdrawals) (a : Address)
    (p : Nat → Bool) : t.heldSats a p = s.heldSats a p := by
  rw [World.heldSats, h, World.heldSats]

def withdrawalCapRules (cfg : Config) (cap : Int) :
    Rules (service cfg withdrawalRuns) World where
  world w := w
  inv := WithinCap cfg cap
  rely := WithdrawalSlot.rely
  guar := WithdrawalSlot.guar
  rest _ _ := True
  hist _ _ := True
  rely_refl i s := by
    cases i with
    | watcher => exact .refl s
    | signer row => exact fun _ h => h
  rely_trans {i} _ _ _ h h' := by
    cases i with
    | watcher => exact NothingAdded.trans h h'
    | signer row => exact fun d hd => h' d (h d hd)
  guar_refl i s := by
    cases i with
    | watcher => exact fun _ _ h => h
    | signer row => exact ⟨fun _ _ => Int.le_refl _, fun _ _ => rfl, rfl⟩
  guar_rely {i j} s t hij _ _ h := by
    cases i with
    | watcher =>
        cases j with
        | watcher => exact absurd rfl hij
        | signer row => exact h row
    | signer row =>
        have h : OwnRowOnly row s t := h
        cases j with
        | watcher => exact ⟨h.held, Nat.le_of_eq h.now.symm⟩
        | signer row' =>
            intro d hd
            rw [h.others row' fun hr => hij (congrArg _ hr.symm)]
            exact hd
  rest_stable _ _ _ _ := trivial
  hist_refl _ := trivial
  hist_trans _ _ := trivial
  guar_hist _ _ _ := trivial
  env_step {e s w} hi he := by
    have hocc := (service_env he).2
    have hrows := (EnvEvent.occur_surroundings hocc).withdrawals
    refine ⟨w, rfl, hi.same hrows, trivial, ?_⟩
    intro i
    cases i with
    | watcher =>
        exact ⟨fun a p => Int.le_of_eq (heldSats_same hrows a p), EnvEvent.occur_now hocc⟩
    | signer row =>
        intro d hd
        rw [hrows]
        exact hd

section Fee
variable {cfg : Config} {cap amount net : Int}

theorem fee_nonneg (h : applyFee amount cfg.bridgeFeeBps = .ok net) (hfee : FeeWithin cfg)
    (hamount : 0 ≤ amount) : 0 ≤ net := by
  obtain ⟨fee, hbps, rfl⟩ := applyFee_ok h
  have hle : fee ≤ bpsDenom := hfee fee (by rw [hbps, JsNumber.toBigInt_int])
  exact Int.tdiv_nonneg (mul_nonneg hamount (by omega)) (by decide)

theorem fee_nonpos (h : applyFee amount cfg.bridgeFeeBps = .ok net) (hfee : ¬ FeeWithin cfg)
    (hamount : 0 ≤ amount) : net ≤ 0 := by
  obtain ⟨fee, hbps, rfl⟩ := applyFee_ok h
  have hlt : bpsDenom < fee := by
    by_contra hle
    refine hfee fun n hn => ?_
    rw [hbps, JsNumber.toBigInt_int] at hn
    cases hn
    omega
  have hneg : 0 ≤ (-(amount * (bpsDenom - fee))).tdiv bpsDenom := by
    refine Int.tdiv_nonneg ?_ (by decide)
    rw [← mul_neg]
    exact mul_nonneg hamount (by omega)
  rw [Int.neg_tdiv] at hneg
  rw [bigIntDiv]
  omega

/-- A fee that does not add to an amount does not add to a smaller one. -/
theorem fee_le (h : applyFee amount cfg.bridgeFeeBps = .ok net) (hamount : 0 ≤ amount)
    (hcap : amount ≤ cap)
    (hkeep : ∀ n, applyFee cap cfg.bridgeFeeBps = .ok n → n ≤ cap) : net ≤ amount := by
  obtain ⟨fee, hbps, rfl⟩ := applyFee_ok h
  have hb : bpsDenom = 10000 := rfl
  by_cases hneg : fee < 0
  · have hk := hkeep _ (by rw [hbps]; exact applyFee_eq cap fee)
    have hmul : amount * (bpsDenom - fee) ≤ cap * (bpsDenom - fee) - (cap - amount) * bpsDenom := by
      have hdiff : 0 ≤ (cap - amount) * -fee := mul_nonneg (by omega) (by omega)
      have hexp : cap * (bpsDenom - fee) - (cap - amount) * bpsDenom - amount * (bpsDenom - fee) =
          (cap - amount) * -fee := by ring
      omega
    have hnum : 0 ≤ amount * (bpsDenom - fee) := mul_nonneg hamount (by omega)
    have hnum' : 0 ≤ cap * (bpsDenom - fee) := mul_nonneg (by omega) (by omega)
    rw [bigIntDiv, Int.tdiv_eq_ediv_of_nonneg hnum', hb] at hk
    rw [bigIntDiv, Int.tdiv_eq_ediv_of_nonneg hnum, hb]
    rw [hb] at hmul
    omega
  · by_cases hfee : fee ≤ bpsDenom
    · exact (bigIntDiv_fee_le hamount (by omega) hfee).2
    · refine (fee_nonpos h ?_ hamount).trans hamount
      intro hwithin
      exact hfee (hwithin fee (by rw [hbps, JsNumber.toBigInt_int]))

end Fee

section Outline
variable {cfg : Config} {cap : Int}

/-- A request that does not reach the withdrawals leaves what is known of them. -/
theorem performs_aside_rows {β : Type} {op : Op β} {i : WithdrawalSlot} {P : World → Prop}
    (hop : op.part ≠ .withdrawals)
    (hP : ∀ s t : World, t.withdrawals = s.withdrawals → t.now = s.now → P s → P t) :
    (withdrawalCapRules cfg cap).Performs i P op fun _ => P := by
  intro s out r w hi hs _ _ hans
  have hframe := answer_frame hans
  have hrows : w.withdrawals = s.withdrawals := hframe.withdrawals hop
  refine ⟨w, rfl, hi.same hrows, ?_, hP s w hrows hframe.now hs⟩
  cases i with
  | watcher =>
      intro id d hd
      rw [hrows]
      exact hd
  | signer row =>
      exact ⟨fun a p => Int.le_of_eq (heldSats_same hrows a p), fun _ _ => by rw [hrows],
        hframe.now⟩

theorem cap_idle (i : WithdrawalSlot) :
    (withdrawalCapRules cfg cap).Stable i fun _ => True := fun _ _ _ _ _ _ => trivial

/-- What the sum of the last day says of every day that takes in this moment. -/
def Summed (cfg : Config) (a : Address) (n : Int) (w : World) : Prop :=
  ∃ now, now ≤ w.now ∧
    (FeeWithin cfg → ∀ t, now ≤ t + dayMs → w.heldSats a (fun c => t ≤ c) ≤ n)

theorem Summed.stable (a : Address) (n : Int) :
    (withdrawalCapRules cfg cap).Stable .watcher (Summed cfg a n) := by
  intro s t _ _ (hst : NothingAdded s t) h
  obtain ⟨now, hnow, hsum⟩ := h
  exact ⟨now, hnow.trans hst.now, fun hfee t' ht => (hst.held _ _).trans (hsum hfee t' ht)⟩

/-- The rows that are read take in all that count for such a day. -/
theorem summed_of_find {w : World} (hi : WithinCap cfg cap w) {now : Nat} (hnow : now ≤ w.now)
    (a : Address) :
    Summed cfg a
      ((w.withdrawals.docs.filter (recentWithdrawal now a)).map WithdrawalDoc.amountSats).sum w := by
  refine ⟨now, hnow, ?_⟩
  intro hfee t ht
  rw [Collection.sum_filter, World.heldSats]
  refine List.sum_le_sum fun d hd => ?_
  have hnonneg := hi.amounts hfee d hd
  by_cases hc : d.countsFor a (fun c => t ≤ c) = true
  · have hrecent : recentWithdrawal now a d = true := by
      simp only [WithdrawalDoc.countsFor, Bool.and_eq_true, decide_eq_true_eq, bne_iff_ne] at hc
      obtain ⟨⟨ha, hlate⟩, hfailed⟩ := hc
      have hlisted := hi.listed d hd
      have hday : now ≤ d.createdAt + dayMs := by omega
      cases hst : d.status <;> simp_all [recentWithdrawal]
    rw [if_pos hc, if_pos hrecent, max_eq_left hnonneg]
  · rw [if_neg hc]
    split
    · exact hnonneg
    · exact Int.le_refl 0

/-- A row is added that keeps within the cap. -/
theorem cap_create {d : WithdrawalDoc} {P : World → Prop}
    (h : ∀ w, WithinCap cfg cap w → P w → WithinCap cfg cap (w.insertWithdrawal d)) :
    (withdrawalCapRules cfg cap).Performs .watcher P (.withdrawal (.create d))
      (Answered (fun _ _ => True) fun _ => True) := by
  refine Withdrawal.performs_create (fun w hi hs _ => ?_) fun _ _ _ => trivial
  exact ⟨_, rfl, h w hi hs, fun _ _ hd => World.get_insertWithdrawal_old hd, trivial, trivial⟩

theorem amountSats_nonneg (l : BurnLog) : 0 ≤ l.amountSats := by
  rw [BurnLog.amountSats, bigIntDiv]
  exact Int.tdiv_nonneg (Int.natCast_nonneg _) (by decide)

/-- The sum leaves room for the row on every day that takes in this moment. -/
theorem WithinCap.confirm {w : World} (hi : WithinCap cfg cap w) {l : BurnLog} {n sats : Int}
    (hkeep : ∀ m, applyFee cap cfg.bridgeFeeBps = .ok m → m ≤ cap)
    (hsats : applyFee l.amountSats cfg.bridgeFeeBps = .ok sats) (hroom : n + l.amountSats ≤ cap)
    (h : Summed cfg l.burn.source n w) :
    WithinCap cfg cap (w.insertWithdrawal (l.confirmed sats)) := by
  have hgross := amountSats_nonneg l
  refine hi.insert (by intro hst; cases hst) (fun hfee => fee_nonneg hsats hfee hgross) ?_
  intro _ t hday
  change w.heldSats l.burn.source (dayFrom t) + max sats 0 ≤ cap
  by_cases hfee : FeeWithin cfg
  · obtain ⟨now, hnow, hsum⟩ := h
    simp only [dayFrom, Bool.and_eq_true, decide_eq_true_eq] at hday
    have htail := hsum hfee t (hnow.trans hday.2)
    have hle : w.heldSats l.burn.source (dayFrom t) ≤
        w.heldSats l.burn.source (fun c => t ≤ c) := by
      refine heldSats_mono fun c hc => ?_
      exact (Bool.and_eq_true _ _ ▸ hc).1
    have hheld : 0 ≤ w.heldSats l.burn.source (fun c => t ≤ c) := heldSats_nonneg
    have hnet := fee_le hsats hgross (by omega) hkeep
    rw [max_eq_left (fee_nonneg hsats hfee hgross)]
    omega
  · have hcap := hi.capped l.burn.source t
    rw [max_eq_right (fee_nonpos hsats hfee hgross)]
    omega

def withdrawalCapOutline (hcap : ∀ n, cfg.perAddressDailyCapFair.toSats = .ok n → n = cap)
    (hkeep : ∀ m, applyFee cap cfg.bridgeFeeBps = .ok m → m ≤ cap) (l : BurnLog) :
    DailyOutline (withdrawalCapRules cfg cap) .watcher cfg l where
  base _ := True
  clocked now w := now ≤ w.now
  summed := Summed cfg l.burn.source
  recorded _ := True
  created _ _ _ := True
  base_stable := cap_idle _
  clocked_stable now := fun _ _ _ _ hst h => Nat.le_trans h (NothingAdded.now hst)
  summed_stable := Summed.stable _
  recorded_stable := cap_idle _
  created_stable _ _ := cap_idle _
  base_rest _ _ _ := trivial
  clocked_rest _ _ _ _ := trivial
  summed_base _ _ _ _ := trivial
  recorded_rest _ _ _ := trivial
  created_rest _ _ _ _ _ := trivial
  find := Withdrawal.performs_findOne (fun _ _ _ _ _ _ => trivial) (fun _ _ _ => trivial)
    fun _ _ _ => trivial
  validate := performs_validateAddress fun _ _ _ => trivial
  clock := by
    refine performs_read (fun _ => rfl) ?_ ?_ fun _ _ _ _ => trivial
    · intro w x w' hx
      cases hx
      rfl
    · intro w x _ _ hx
      cases hx
      exact Nat.le_refl _
  daily now := Withdrawal.performs_findAll (fun _ hi h => summed_of_find hi h _)
    fun _ _ _ => trivial
  refuse := by
    refine cap_create fun w hi _ => ?_
    refine hi.insert (by intro h; cases h) (fun _ => amountSats_nonneg l) fun h => ?_
    exact absurd rfl h
  confirm n capSats sats hc hroom hsats := by
    refine cap_create fun w hi h => ?_
    rw [hcap capSats hc] at hroom
    exact hi.confirm hkeep hsats hroom h
  enqueue sats d := (performs_aside_rows (P := fun _ => True) (by intro h; cases h)
    fun _ _ _ _ _ => trivial).post fun a _ _ _ => by cases a <;> trivial
  notify _ := performs_webhook fun _ _ h => h

/-- A row that is not refused. -/
def NotRefused (row : ObjectId) (w : World) : Prop :=
  ∃ d, w.withdrawals.get row = some d ∧ d.status ≠ .failed

variable {job : ReleaseJob}

theorem own_row_stable (d : WithdrawalDoc) :
    (withdrawalCapRules cfg cap).Stable (.signer job.withdrawalId)
      fun w => w.withdrawals.get job.withdrawalId = some d :=
  fun _ _ _ _ hst h => hst d h

theorem notRefused_stable : (withdrawalCapRules cfg cap).Stable (.signer job.withdrawalId)
    (NotRefused job.withdrawalId) := by
  intro s t _ _ hst h
  obtain ⟨d, hd, hne⟩ := h
  exact ⟨d, hst d hd, hne⟩

/-- The signer updates its row without bringing it back. -/
theorem own_row_update {w : World} (hi : WithinCap cfg cap w) {row : ObjectId}
    {d : WithdrawalDoc} {u : WithdrawalSet} (hd : w.withdrawals.get row = some d)
    (hst : u.status ≠ some .detected)
    (hkeep : d.status = .failed → (u.apply d).status = .failed) :
    WithinCap cfg cap (w.setWithdrawal row u) ∧ OwnRowOnly row w (w.setWithdrawal row u) := by
  refine ⟨hi.update hd hst hkeep, fun a p => heldSats_update hd hkeep, ?_, rfl⟩
  exact fun id hid => Collection.get_modify_other _ u hid

/-- An update that does not refuse the row. -/
theorem notRefused_update {u : WithdrawalSet} (hst : u.status ≠ some .detected)
    (hfailed : u.status ≠ some .failed) :
    (withdrawalCapRules cfg cap).Performs (.signer job.withdrawalId) (NotRefused job.withdrawalId)
      (.withdrawal (.updateOne (fun d => d.id == job.withdrawalId && true) u))
      (Answered (fun _ => NotRefused job.withdrawalId) fun _ => True) := by
  refine Withdrawal.performs_updateById ?_ fun _ _ _ _ _ => trivial
  intro w hi h
  obtain ⟨d, hd, hne⟩ := h
  obtain ⟨hinv, hown⟩ := own_row_update hi hd hst fun hf => absurd hf hne
  refine ⟨_, rfl, hinv, hown, ⟨_, World.get_setWithdrawal hd u, ?_⟩, trivial⟩
  cases hu : u.status with
  | none => simpa [WithdrawalSet.apply, hu] using hne
  | some st =>
      rw [hu] at hfailed
      simpa [WithdrawalSet.apply, hu] using hfailed

def withdrawalSignerOutline (cfg : Config) (cap : Int) (job : ReleaseJob) :
    ReleaseOutline (withdrawalCapRules cfg cap) (.signer job.withdrawalId) job where
  start _ := True
  seen d w := w.withdrawals.get job.withdrawalId = some d
  refused _ := True
  held d w := w.withdrawals.get job.withdrawalId = some d
  sent _ := NotRefused job.withdrawalId
  filed _ := NotRefused job.withdrawalId
  start_stable := cap_idle _
  seen_stable := own_row_stable
  refused_stable := cap_idle _
  held_stable := own_row_stable
  sent_stable _ := notRefused_stable
  filed_stable _ := notRefused_stable
  start_rest _ _ _ := trivial
  seen_rest _ _ _ _ := trivial
  refused_rest _ _ _ := trivial
  held_rest _ _ _ _ := trivial
  filed_rest _ _ _ _ := trivial
  seen_id _ _ _ h := Collection.get_id h
  held_id _ _ _ h := Collection.get_id h
  resume _ _ _ h _ := h
  reconcile d t s _ h hst _ := ⟨d, h, by rw [hst]; decide⟩
  read := by
    refine Withdrawal.performs_findById ?_ fun _ _ _ => trivial
    intro s _ _
    change Found _ _ (s.withdrawals.get job.withdrawalId) s
    cases h : s.withdrawals.get job.withdrawalId with
    | none => trivial
    | some d => exact h
  validate _ _ := performs_validateAddress fun _ _ _ => trivial
  reject d _ := by
    refine Withdrawal.performs_updateById ?_ fun _ _ _ _ _ => trivial
    intro w hi hd
    obtain ⟨hinv, hown⟩ := own_row_update (u := { status := some .failed }) hi hd
      (by intro h; cases h) fun _ => rfl
    exact ⟨_, rfl, hinv, hown, trivial, trivial⟩
  claim d _ := by
    refine Withdrawal.performs_claimRelease ?_ (fun _ _ _ _ => trivial) fun _ _ _ => trivial
    intro w e _ hi _ he hc _
    obtain ⟨hinv, hown⟩ := own_row_update (u := { status := some .signing }) hi he
      (by intro h; cases h) fun hf => by simp [releasable, hf] at hc
    exact ⟨_, rfl, hinv, hown, World.get_setWithdrawal he _, trivial⟩
  reread := by
    refine Withdrawal.performs_findById ?_ fun _ _ _ => trivial
    intro s _ _
    change Found _ _ (s.withdrawals.get job.withdrawalId) s
    cases h : s.withdrawals.get job.withdrawalId with
    | none => trivial
    | some d => exact h
  lookup _ := performs_getRawTransaction fun _ _ h => h
  clock _ := performs_dateNow
  broadcast d hst _ := by
    refine (performs_aside_rows (P := fun w => w.withdrawals.get job.withdrawalId = some d)
      (by intro h; cases h) ?_).post ?_
    · intro s t hrows _ hd
      rw [hrows]
      exact hd
    · intro r s _ hd
      cases r with
      | ok _ => exact ⟨d, hd, by rw [hst]; decide⟩
      | error _ => trivial
  clock_sent _ := performs_dateNow
  clock_settled _ _ _ _ _ := trivial
  sent_settled _ _ _ _ _ _ := trivial
  persist t now := notRefused_update (by intro h; cases h) (by intro h; cases h)
  finish t sentAt := (notRefused_update (u := { status := some .broadcast, fairBroadcastAt := sentAt })
    (by intro h; cases h) (by intro h; cases h)).post fun a _ _ _ => by cases a <;> trivial
  notify _ := performs_webhook fun _ _ h => h
  record _ := (performs_aside_rows (P := fun _ => True) (by intro h; cases h)
    fun _ _ _ _ _ => trivial).post fun a _ _ _ => by cases a <;> trivial
  deliver _ _ := (performs_aside_rows (P := fun _ => True) (by intro h; cases h)
    fun _ _ _ _ _ => trivial).post fun a _ _ _ => by cases a <;> trivial

/-- A request that does not reach the withdrawals and of which nothing is to be known. -/
theorem cap_call {β : Type} {op : Op β} (hop : op.part ≠ .withdrawals) :
    (withdrawalCapRules cfg cap).Triple .watcher (fun _ => True) (call op) (fun _ _ => True)
      fun _ _ => True := by
  refine .call (cap_idle _) (.of_rest fun _ _ _ => trivial) ?_ (fun _ => cap_idle _) (cap_idle _)
  exact (performs_aside_rows (P := fun _ => True) hop fun _ _ _ _ _ => trivial).post
    fun a _ _ _ => by cases a <;> trivial

theorem cap_return {α : Type} (a : α) :
    (withdrawalCapRules cfg cap).Triple .watcher (fun _ => True) (.pure a) (fun _ _ => True)
      fun _ _ => True := .pure (cap_idle _) fun _ _ _ => trivial

def withdrawalOrphanOutline (cfg : Config) (cap : Int) :
    OrphanOutline (withdrawalCapRules cfg cap) .watcher where
  base _ := True
  listed _ _ := True
  base_stable := cap_idle _
  listed_stable _ := cap_idle _
  base_rest _ _ _ := trivial
  listed_rest _ _ _ _ := trivial
  clock := performs_dateNow
  find _ := Withdrawal.performs_find (fun _ _ _ _ _ => trivial) fun _ _ _ => trivial
  enqueue _ _ := (performs_aside_rows (P := fun _ => True) (by intro h; cases h)
    fun _ _ _ _ _ => trivial).post fun a _ _ _ => by cases a <;> trivial

section Loop
variable (hcap : ∀ n, cfg.perAddressDailyCapFair.toSats = .ok n → n = cap)
  (hkeep : ∀ m, applyFee cap cfg.bridgeFeeBps = .ok m → m ≤ cap)
include hcap hkeep

theorem cap_processLog (log : Log) :
    (withdrawalCapRules cfg cap).Triple .watcher (fun _ => True) (processLog cfg log)
      (fun _ _ => True) fun _ _ => True := by
  rw [processLog]
  split
  · rename_i l _
    exact (withdrawalCapOutline hcap hkeep l).recordBurn
  · exact cap_return ()

theorem cap_processLogs (logs : List Log) :
    (withdrawalCapRules cfg cap).Triple .watcher (fun _ => True) (processLogs cfg logs)
      (fun _ _ => True) fun _ _ => True := by
  induction logs with
  | nil => exact cap_return ()
  | cons log logs ih =>
      refine .bind (cap_call (by intro h; cases h)) fun aborted => ?_
      split
      · exact cap_return ()
      · exact .bind (cap_processLog hcap hkeep log) fun _ => ih

theorem cap_scanWindows (safeTip : Int) (n : Nat) (windowFrom : Int) :
    (withdrawalCapRules cfg cap).Triple .watcher (fun _ => True)
      (scanWindows cfg safeTip n windowFrom) (fun _ _ => True) fun _ _ => True := by
  induction n generalizing windowFrom with
  | zero => exact cap_return ()
  | succ n ih =>
      rw [scanWindows]
      split
      · refine .bind (cap_call (by intro h; cases h)) fun aborted => ?_
        split
        · exact cap_return ()
        · refine .bind (cap_call (by intro h; cases h)) fun logs => ?_
          refine .bind (cap_processLogs hcap hkeep logs) fun _ => ?_
          exact .bind (cap_call (by intro h; cases h)) fun _ => ih _
      · exact cap_return ()

theorem cap_baseWatcherTick :
    (withdrawalCapRules cfg cap).Triple .watcher (fun _ => True) (baseWatcherTick cfg)
      (fun _ _ => True) fun _ _ => True := by
  refine .tryCatch (M := fun _ _ => True) ?_ fun _ => cap_return ()
  refine .bind (withdrawalOrphanOutline cfg cap).reconcileOrphanWithdrawals fun _ => ?_
  refine .bind (cap_call (by intro h; cases h)) fun tip => ?_
  refine .bind (cap_call (by intro h; cases h)) fun last => ?_
  refine .bind (M := fun _ _ => True) ?_ fun n => cap_scanWindows hcap hkeep _ _ _
  exact .ofExcept (cap_idle _) (fun _ _ _ _ _ => trivial) fun _ _ _ => trivial

theorem cap_startBaseWatcher (rounds : Nat) :
    (withdrawalCapRules cfg cap).Triple .watcher (fun _ => True) (startBaseWatcher cfg rounds)
      (fun _ _ => True) fun _ _ => True := by
  induction rounds with
  | zero => exact cap_return ()
  | succ rounds ih =>
      refine .bind (cap_call (by intro h; cases h)) fun aborted => ?_
      split
      · exact cap_return ()
      · exact .bind (cap_baseWatcherTick hcap hkeep) fun _ => ih

theorem withdrawalCap_starts : (withdrawalCapRules cfg cap).Starts := by
  intro i t s hi _ hready
  cases i with
  | watcher =>
      cases t with
      | processLog log => exact cap_processLog hcap hkeep log s hi trivial
      | reconcileOrphanWithdrawals =>
          exact (withdrawalOrphanOutline cfg cap).reconcileOrphanWithdrawals s hi trivial
      | startBaseWatcher rounds => exact cap_startBaseWatcher hcap hkeep rounds s hi trivial
      | _ => cases hready
  | signer row =>
      cases t with
      | signRelease job =>
          have hrow : job.withdrawalId = row := by simpa [service, withdrawalRuns] using hready
          subst hrow
          exact (withdrawalSignerOutline cfg cap job).signRelease s hi trivial
      | _ => cases hready

end Loop
end Outline

theorem atLeast_mono {x : JsNumber} {n m : Int} (h : x.atLeast m = true) (hle : n ≤ m) :
    x.atLeast n = true := by
  cases x with
  | infinity negative => exact h
  | finite q =>
      simp only [JsNumber.atLeast, decide_eq_true_eq] at h ⊢
      have hq : (n : ℚ) ≤ m := by exact_mod_cast hle
      exact hq.trans h

theorem toSats_nonneg {x : JsNumber} {n : Int} (h : x.toSats = .ok n)
    (hpos : x.timesSatsPerFair.atLeast 0 = true) : 0 ≤ n := by
  rw [JsNumber.toSats] at h
  cases hx : x.timesSatsPerFair with
  | infinity _ =>
      rw [hx] at h
      cases h
  | finite q =>
      simp only [hx, JsNumber.atLeast, decide_eq_true_eq] at hpos
      rw [hx, JsNumber.round, JsNumber.toBigInt_int] at h
      rw [← Except.ok.inj h]
      exact roundHalfUp_nonneg (by exact_mod_cast hpos)

/-- From an empty store on, whatever is burned and however the runs of the watcher and of
the signer end, no day sees more withdrawn for an address than the cap, as long as the cap
is not rounded up to sats and the fee does not add to an amount of the cap. -/
theorem daily_withdrawals_capped (cfg : Config)
    (hpos : cfg.perAddressDailyCapFair.timesSatsPerFair.atLeast 0 = true)
    (hround : ∀ n, cfg.perAddressDailyCapFair.toSats = .ok n →
      cfg.perAddressDailyCapFair.timesSatsPerFair.atLeast n = true)
    (hfee : ∀ n net, cfg.perAddressDailyCapFair.toSats = .ok n →
      applyFee n cfg.bridgeFeeBps = .ok net → net ≤ n)
    {w : World} (hw : w.withdrawals.docs = []) {q : Pool Op JsError World WithdrawalSlot}
    {es : List (Event JsError WithdrawalSlot Task EnvEvent)}
    (hq : (service cfg withdrawalRuns).exec (.init w) es = some q) (a : Address) (t : Nat) :
    cfg.perAddressDailyCapFair.timesSatsPerFair.atLeast
      (q.world.withdrawalSats a (dayFrom t)) = true := by
  obtain ⟨cap, hcap, hkeep, hnonneg, hle⟩ : ∃ cap : Int,
      (∀ n, cfg.perAddressDailyCapFair.toSats = .ok n → n = cap) ∧
      (∀ m, applyFee cap cfg.bridgeFeeBps = .ok m → m ≤ cap) ∧ 0 ≤ cap ∧
      cfg.perAddressDailyCapFair.timesSatsPerFair.atLeast cap = true := by
    cases hsats : cfg.perAddressDailyCapFair.toSats with
    | ok n =>
        refine ⟨n, ?_, fun m => hfee n m hsats, toSats_nonneg hsats hpos, hround n hsats⟩
        exact fun m hm => (Except.ok.inj hm).symm
    | error e =>
        refine ⟨0, fun n hn => (by cases hn), ?_, Int.le_refl 0, hpos⟩
        intro m hm
        obtain ⟨fee, _, rfl⟩ := applyFee_ok hm
        rw [zero_mul, bigIntDiv, Int.zero_tdiv]
  have hempty : WithinCap cfg cap w := by
    refine ⟨by simp [hw], by simp [hw], ?_⟩
    intro a t
    rw [World.heldSats, hw]
    exact hnonneg
  have hinit : (withdrawalCapRules cfg cap).Good (.init w) w :=
    .init rfl hempty fun _ => trivial
  obtain ⟨s, hs, _⟩ := hinit.exec (fun _ _ _ => trivial) (withdrawalCap_starts hcap hkeep) hq
  obtain rfl := hs.world
  exact atLeast_mono hle (withdrawalSats_le.trans (hs.inv.capped a t))

namespace Sample

/-- A fee that adds three per mille. -/
def rebateConfig : Config := { config with bridgeFeeBps := .finite (-30) }

/-- A burn of 100 FAIR. -/
def capBurn : Log :=
  ⟨some ⟨9⟩, some 0, some 1, some ⟨⟨7⟩, 10000000000 * 10 ^ 10, [0x66, 0x41]⟩⟩

def capPass : List (Event JsError WithdrawalSlot Task EnvEvent) :=
  .start .watcher (.processLog capBurn) :: List.replicate 6 (.step .watcher .done)

/-- A burn of 60 FAIR the same day. -/
def laterBurn : Log :=
  ⟨some ⟨10⟩, some 0, some 1, some ⟨⟨7⟩, 6000000000 * 10 ^ 10, [0x66, 0x41]⟩⟩

/-- The second burn is refused. -/
def refusedPass : List (Event JsError WithdrawalSlot Task EnvEvent) :=
  capPass ++ [.env (.wait 3600000), .start .watcher (.processLog laterBurn)] ++
    List.replicate 5 (.step .watcher .done)

end Sample

theorem refused_pass_capped : ∃ q,
    (service Sample.config withdrawalRuns).exec (.init {}) Sample.refusedPass = some q ∧
    q.world.withdrawals.docs.length = 2 ∧ q.world.withdrawalSats ⟨7⟩ (dayFrom 0) = 9970000000 ∧
    Sample.config.perAddressDailyCapFair.timesSatsPerFair.atLeast
      (q.world.withdrawalSats ⟨7⟩ (dayFrom 0)) = true := by
  have h : ((service Sample.config withdrawalRuns).exec (.init {}) Sample.refusedPass).map
      (fun q => (q.world.withdrawals.docs.length, q.world.withdrawalSats ⟨7⟩ (dayFrom 0))) =
      some (2, 9970000000) := by
    decide +kernel
  obtain ⟨q, hq, hres⟩ := Option.map_eq_some_iff.mp h
  obtain ⟨hlen, hsats⟩ := Prod.mk.inj hres
  have hcap : Sample.config.perAddressDailyCapFair.toSats = .ok 10000000000 := by decide +kernel
  have hkeep : applyFee 10000000000 Sample.config.bridgeFeeBps = .ok 9970000000 := by
    decide +kernel
  refine ⟨q, hq, hlen, hsats, daily_withdrawals_capped Sample.config ?_ ?_ ?_ rfl hq ⟨7⟩ 0⟩
  · decide +kernel
  · intro n hn
    rw [hcap] at hn
    cases hn
    decide +kernel
  · intro n net hn hnet
    rw [hcap] at hn
    cases hn
    rw [hkeep] at hnet
    cases hnet
    decide

/-- With a negative fee a burn of the whole cap is credited with more than the cap. -/
theorem negative_fee_exceeds_cap : ∃ q,
    (service Sample.rebateConfig withdrawalRuns).exec (.init {}) Sample.capPass = some q ∧
    ¬ Sample.rebateConfig.perAddressDailyCapFair.timesSatsPerFair.atLeast
      (q.world.withdrawalSats ⟨7⟩ (dayFrom 0)) = true := by
  have h : ((service Sample.rebateConfig withdrawalRuns).exec (.init {}) Sample.capPass).map
      (fun q => Sample.rebateConfig.perAddressDailyCapFair.timesSatsPerFair.atLeast
        (q.world.withdrawalSats ⟨7⟩ (dayFrom 0))) = some false := by
    decide +kernel
  obtain ⟨q, hq, hres⟩ := Option.map_eq_some_iff.mp h
  exact ⟨q, hq, by rw [hres]; decide⟩

end FairBridge

import FairBridge.Ledger.Scans

/-!
The daily cap of an address. The sum that is checked is taken over the rows created
within a day, and an intent is created long before it is confirmed. As long as the
sum takes in every row confirmed since some moment, what was confirmed since then
stays within the cap.
-/

namespace FairBridge
open Store Async Async.Rules

/-- One watcher. Any of its requests may raise, and its runs may die. -/
def scanRuns : Faults Unit where
  ready _ _ t := match t with
    | .processBlock _ _ => true
    | _ => false
  may _ _ _ _ := true
  mayKill _ _ _ := true
  row _ := none

/-- The row was confirmed, and its mint has not failed. -/
def DepositDoc.credited (d : DepositDoc) : Bool :=
  d.status == .confirmed || d.status == .minting || d.status == .minted

namespace World

/-- The row was confirmed since the world was `w₀`. -/
def creditedSince (w₀ : World) (d : DepositDoc) : Bool :=
  d.credited && (w₀.deposits.get d.id).all DepositDoc.isOpen

def creditOf (w₀ : World) (a : Address) (d : DepositDoc) : Int :=
  if d.baseAddress == a && w₀.creditedSince d then d.amountSats else 0

/-- What was confirmed for an address between `w₀` and `w`. -/
def creditSats (w₀ w : World) (a : Address) : Int := (w.deposits.docs.map (w₀.creditOf a)).sum

end World

/-- A sum over rows leaves out none confirmed since `w₀` that it would take in if the
row were created now. -/
def countsSince (w₀ : World) {β : Type} (_ : Unit) (op : Op β) (w : World) : Bool :=
  match op with
  | .deposit (.find filter none) =>
      w.deposits.docs.all fun d =>
        !(w₀.creditedSince d && filter { d with createdAt := w.now }) || filter d
  | _ => true

/-- Amounts are not negative, and open intents have no vout. -/
structure SaneDeposits (w : World) : Prop where
  amounts : ∀ d ∈ w.deposits.docs, 0 ≤ d.amountSats
  values : ∀ b ∈ w.fair.blocks, ∀ x ∈ b.vouts, 0 ≤ x.2.value
  intents : IntentsUnmatched w

theorem creditOf_closed {w₀ : World} {a : Address} {d : DepositDoc} (h : d.credited = false) :
    w₀.creditOf a d = 0 := by
  simp [World.creditOf, World.creditedSince, h]

theorem creditOf_other {w₀ : World} {a : Address} {d : DepositDoc} (h : d.baseAddress ≠ a) :
    w₀.creditOf a d = 0 := by
  simp [World.creditOf, h]

theorem credited_open {d : DepositDoc} (h : d.isOpen = true) : d.credited = false := by
  cases hs : d.status <;> simp [DepositDoc.isOpen, DepositDoc.credited, hs] at h ⊢

/-- Nothing was confirmed yet. -/
theorem creditSats_self (w : World) (a : Address) : w.creditSats w a = 0 := by
  have hzero : w.deposits.docs.map (w.creditOf a) = w.deposits.docs.map fun _ => 0 := by
    refine List.map_congr_left fun d hd => ?_
    have hget : w.deposits.get d.id = some d := Collection.get_of_mem hd
    cases ho : d.isOpen with
    | true => exact creditOf_closed (credited_open ho)
    | false => simp [World.creditOf, World.creditedSince, hget, ho]
  rw [World.creditSats, hzero]
  simp

section Books
variable {w₀ w w' : World} {a : Address} {d : DepositDoc} {id : ObjectId}

theorem creditOf_le (h : 0 ≤ d.amountSats) : w₀.creditOf a d ≤ d.amountSats := by
  rw [World.creditOf]
  split
  · exact Int.le_refl _
  · exact h

theorem creditSats_insert (w₀ w : World) (a : Address) (d : DepositDoc) :
    w₀.creditSats (w.insertDeposit d) a = w₀.creditSats w a +
      w₀.creditOf a { d with id := w.deposits.nextId, createdAt := w.now } :=
  w.deposits.sum_insert (w₀.creditOf a) w.now d

theorem creditSats_set (hd : w.deposits.get id = some d) (u : DepositSet) :
    w₀.creditSats (w.setDeposit id u) a =
      w₀.creditSats w a - w₀.creditOf a d + w₀.creditOf a (u.apply d) :=
  w.deposits.sum_modify (w₀.creditOf a) u hd

/-- An intent is not credited. -/
theorem creditSats_occur {e : EnvEvent} (h : e.occur w = some w') :
    w₀.creditSats w' a = w₀.creditSats w a := by
  cases EnvEvent.occur_deposits h with
  | inl hsame => rw [World.creditSats, hsame, World.creditSats]
  | inr hnew =>
      obtain ⟨d, hfresh, hins⟩ := hnew
      have hsum := creditSats_insert w₀ w a d
      rw [creditOf_closed (by simp [DepositDoc.credited, hfresh.status]), Int.add_zero] at hsum
      rw [← hsum, World.creditSats, hins, World.creditSats]

theorem SaneDeposits.occur {e : EnvEvent} (hb : SaneDeposits w) (h : e.occur w = some w') :
    SaneDeposits w' := by
  refine ⟨?_, ?_, hb.intents.occur h⟩
  · cases EnvEvent.occur_deposits h with
    | inl hsame =>
        rw [hsame]
        exact hb.amounts
    | inr hnew =>
        obtain ⟨d₀, hfresh, hins⟩ := hnew
        intro d hd
        rw [hins] at hd
        cases List.mem_append.mp hd with
        | inl hd => exact hb.amounts d hd
        | inr hd =>
            rw [List.mem_singleton.mp hd]
            exact Int.le_of_eq hfresh.amount.symm
  · cases e with
    | wait _ | transactionKnown _ _ | credit _ | masternodes _ | abort | restart
    | serveFirst _ | market _ =>
        cases h
        exact hb.values
    | mine _ _ | foreignReceipt _ _ | baseBlock _ | confirm _ | order _ _ | quote _
    | intent _ _ _ _ =>
        simp only [EnvEvent.occur] at h
        split at h <;> cases h
        exact hb.values
    | fairBlock b =>
        simp only [EnvEvent.occur] at h
        split at h <;> cases h
        rename_i hpos
        intro b' hb'
        cases List.mem_append.mp hb' with
        | inl hold => exact hb.values b' hold
        | inr hnew =>
            rw [List.mem_singleton.mp hnew]
            intro x hx
            simpa using List.all_eq_true.mp hpos x hx

theorem SaneDeposits.insert (hb : SaneDeposits w) (hamount : 0 ≤ d.amountSats)
    (ho : d.isOpen = false) : SaneDeposits (w.insertDeposit d) := by
  refine ⟨?_, hb.values, hb.intents.insertDeposit fun h => absurd h (by simp [ho])⟩
  intro e he
  cases List.mem_append.mp he with
  | inl he => exact hb.amounts e he
  | inr he =>
      rw [List.mem_singleton.mp he]
      exact hamount

theorem SaneDeposits.set (hb : SaneDeposits w) (hd : w.deposits.get id = some d)
    {u : DepositSet} (hamount : 0 ≤ (u.apply d).amountSats) (ho : (u.apply d).isOpen = false) :
    SaneDeposits (w.setDeposit id u) := by
  refine ⟨?_, hb.values, hb.intents.setDeposit hd fun h => absurd h (by simp [ho])⟩
  intro e he
  cases Collection.mem_modify.mp he with
  | inl he =>
      obtain ⟨d', hd', rfl⟩ := he
      cases hd.symm.trans hd'
      exact hamount
  | inr he => exact hb.amounts e he.1

end Books

namespace DailyCap

/-- The flag is up from the moment the world is `w₀`. -/
def creditIn (w₀ : World) (s : World × Bool) (a : Address) : Int :=
  if s.2 then w₀.creditSats s.1 a else 0

/-- What holds throughout. -/
structure Capped (w₀ : World) (cap : Int) (s : World × Bool) : Prop where
  sane : SaneDeposits s.1
  capped : ∀ a, creditIn w₀ s a ≤ cap

/-- What the watcher relies on: nobody else touches a row or confirms one, and the
clock does not go back. -/
structure Around (w₀ : World) (s t : World × Bool) : Prop where
  rows : ∀ id d, s.1.deposits.get id = some d → t.1.deposits.get id = some d
  credit : ∀ a, creditIn w₀ t a ≤ creditIn w₀ s a
  now : s.1.now ≤ t.1.now

section Run
variable {cfg : Config} {w₀ : World} {cap : Int}

def dailyRules (cfg : Config) (w₀ : World) (cap : Int) :
    Rules (service cfg (scanRuns.guarded (countsSince w₀))) (World × Bool) where
  world s := s.1
  inv := Capped w₀ cap
  rely _ := Around w₀
  guar _ s t := t.2 = s.2
  rest _ _ := True
  hist s t := t.2 = s.2
  rely_refl _ _ := ⟨fun _ _ h => h, fun _ => Int.le_refl _, Nat.le_refl _⟩
  rely_trans h h' := ⟨fun id d hd => h'.rows id d (h.rows id d hd),
    fun a => (h'.credit a).trans (h.credit a), h.now.trans h'.now⟩
  guar_refl _ _ := rfl
  guar_rely h _ _ _ := absurd rfl h
  rest_stable _ _ _ _ := trivial
  hist_refl _ := rfl
  hist_trans h h' := h'.trans h
  guar_hist _ _ h := h
  env_step {e s w} hi he := by
    have hocc := (service_env he).2
    have hcredit : ∀ a, creditIn w₀ (w, s.2) a = creditIn w₀ s a := by
      intro a
      rw [creditIn, creditIn, creditSats_occur hocc]
    refine ⟨(w, s.2), rfl, ⟨hi.sane.occur hocc, fun a => hcredit a ▸ hi.capped a⟩, rfl, ?_⟩
    refine fun _ => ⟨(EnvEvent.occur_surroundings hocc).deposits,
      fun a => Int.le_of_eq (hcredit a), ?_⟩
    exact EnvEvent.occur_now hocc

/-- A row comes in that is refused, or that the cap leaves room for. -/
theorem Capped.insert {s : World × Bool} (hi : Capped w₀ cap s) {d : DepositDoc}
    (hamount : 0 ≤ d.amountSats) (ho : d.isOpen = false)
    (hroom : d.credited = true → creditIn w₀ s d.baseAddress + d.amountSats ≤ cap) :
    Capped w₀ cap (s.1.insertDeposit d, s.2) := by
  refine ⟨hi.sane.insert hamount ho, ?_⟩
  intro a
  have hcap := hi.capped a
  unfold creditIn at hcap hroom ⊢
  cases hb : s.2 with
  | false =>
      rw [hb] at hcap
      exact hcap
  | true =>
      rw [hb] at hcap hroom
      simp only [if_true] at hcap hroom ⊢
      rw [creditSats_insert]
      set e : DepositDoc := { d with id := s.1.deposits.nextId, createdAt := s.1.now }
      by_cases ha : d.baseAddress = a
      · cases hc : d.credited with
        | false =>
            rw [creditOf_closed (show e.credited = false from hc)]
            omega
        | true =>
            have hle : w₀.creditOf a e ≤ d.amountSats := creditOf_le hamount
            have hroom := hroom hc
            rw [ha] at hroom
            omega
      · rw [creditOf_other (show e.baseAddress ≠ a from ha)]
        omega

/-- An open row is refused, or confirmed as the cap leaves room. -/
theorem Capped.set {s : World × Bool} (hi : Capped w₀ cap s) {id : ObjectId} {d : DepositDoc}
    (hd : s.1.deposits.get id = some d) (hopen : d.isOpen = true) {u : DepositSet}
    (hamount : 0 ≤ (u.apply d).amountSats) (ho : (u.apply d).isOpen = false)
    (hroom : (u.apply d).credited = true →
      creditIn w₀ s d.baseAddress + (u.apply d).amountSats ≤ cap) :
    Capped w₀ cap (s.1.setDeposit id u, s.2) := by
  refine ⟨hi.sane.set hd hamount ho, ?_⟩
  intro a
  have hcap := hi.capped a
  unfold creditIn at hcap hroom ⊢
  cases hb : s.2 with
  | false =>
      rw [hb] at hcap
      exact hcap
  | true =>
      rw [hb] at hcap hroom
      simp only [if_true] at hcap hroom ⊢
      rw [creditSats_set hd, creditOf_closed (credited_open hopen)]
      by_cases ha : d.baseAddress = a
      · cases hc : (u.apply d).credited with
        | false =>
            rw [creditOf_closed hc]
            omega
        | true =>
            have hle : w₀.creditOf a (u.apply d) ≤ (u.apply d).amountSats := creditOf_le hamount
            have hroom := hroom hc
            rw [ha] at hroom
            omega
      · rw [creditOf_other (show (u.apply d).baseAddress ≠ a from ha)]
        omega

variable {v : ScannedVout}

/-- The deposit at the vout is not negative, and its intent is as it was read. -/
structure AtVout (m : MatchedDeposit) (s : World × Bool) : Prop where
  amount : 0 ≤ m.amountSats
  intent : ∀ p, m.pending = some p →
    m.origin = some p ∧ s.1.deposits.get p.id = some p ∧ p.isOpen = true

theorem AtVout.later {m : MatchedDeposit} {s t : World × Bool} (h : AtVout m s)
    (hst : Around w₀ s t) : AtVout m t := by
  refine ⟨h.amount, ?_⟩
  intro p hp
  obtain ⟨horigin, hd, ho⟩ := h.intent p hp
  exact ⟨horigin, hst.rows _ p hd, ho⟩

/-- What was confirmed for the vout's address is at most `n`. -/
def Summed (w₀ : World) (m : MatchedDeposit) (n : Int) (s : World × Bool) : Prop :=
  AtVout m s ∧ ∀ origin, m.origin = some origin → creditIn w₀ s origin.baseAddress ≤ n

theorem Summed.stable (m : MatchedDeposit) (n : Int) :
    (dailyRules cfg w₀ cap).Stable () (Summed w₀ m n) := by
  intro s t _ _ hst h
  exact ⟨h.1.later hst, fun origin ho => (hst.credit _).trans (h.2 origin ho)⟩

/-- The sum that is read takes in what was confirmed since `w₀`. -/
theorem creditIn_le_sum {s : World × Bool} (hi : Capped w₀ cap s) {now : Nat} {a : Address}
    (hnow : now ≤ s.1.now)
    (hc : countsSince w₀ () (.deposit (.find (recentDeposit now a) none)) s.1 = true) :
    creditIn w₀ s a ≤
      ((s.1.deposits.docs.filter (recentDeposit now a)).map DepositDoc.amountSats).sum := by
  have hc : (s.1.deposits.docs.all fun d => !(w₀.creditedSince d &&
      recentDeposit now a { d with createdAt := s.1.now }) || recentDeposit now a d) = true := hc
  rw [List.all_eq_true] at hc
  rw [Collection.sum_filter, creditIn]
  split
  · rw [World.creditSats]
    refine List.sum_le_sum fun d hd => ?_
    have hd' := hc d hd
    by_cases hcount : recentDeposit now a d = true
    · rw [if_pos hcount]
      exact creditOf_le (hi.sane.amounts d hd)
    · rw [if_neg hcount, World.creditOf, if_neg]
      intro hcredit
      rw [Bool.and_eq_true, beq_iff_eq] at hcredit
      have hcredited : d.credited = true := (Bool.and_eq_true _ _ ▸ hcredit.2).1
      have hfresh : recentDeposit now a { d with createdAt := s.1.now } = true := by
        have hle : now ≤ s.1.now + dayMs := by omega
        have hst : (d.status == .confirmed || d.status == .minting || d.status == .minted) =
            true := hcredited
        simp [recentDeposit, hcredit.1, hle, Bool.or_assoc]
        simpa [Bool.or_assoc] using hst
      rw [hcredit.2, hfresh] at hd'
      simp [hcount] at hd'
  · refine List.sum_nonneg ?_
    intro n hn
    obtain ⟨d, hd, rfl⟩ := List.mem_map.mp hn
    split
    · exact hi.sane.amounts d hd
    · exact Int.le_refl 0

/-- A row is added. -/
theorem daily_insert {m : MatchedDeposit} {s : World × Bool} (hi : Capped w₀ cap s)
    (h : AtVout m s) {d : DepositDoc} (hamount : d.amountSats = m.amountSats)
    (ho : d.isOpen = false)
    (hroom : d.credited = true → creditIn w₀ s d.baseAddress + m.amountSats ≤ cap) :
    ∃ t, (dailyRules cfg w₀ cap).world t = s.1.insertDeposit d ∧ Capped w₀ cap t ∧
      t.2 = s.2 ∧ True ∧ True :=
  ⟨(s.1.insertDeposit d, s.2), rfl,
    hi.insert (hamount ▸ h.amount) ho (fun hc => hamount ▸ hroom hc), rfl, trivial, trivial⟩

/-- The intent is updated. -/
theorem daily_set {m : MatchedDeposit} {s : World × Bool} (hi : Capped w₀ cap s)
    (h : AtVout m s) {p d : DepositDoc} (hp : m.pending = some p)
    (hd : s.1.deposits.get p.id = some d) {u : DepositSet}
    (hamount : (u.apply d).amountSats = m.amountSats) (ho : (u.apply d).isOpen = false)
    (hroom : (u.apply d).credited = true → creditIn w₀ s d.baseAddress + m.amountSats ≤ cap) :
    ∃ t, (dailyRules cfg w₀ cap).world t = s.1.setDeposit p.id u ∧ Capped w₀ cap t ∧
      t.2 = s.2 ∧ True ∧ True := by
  obtain ⟨_, hget, hopen⟩ := h.intent p hp
  cases hget.symm.trans hd
  exact ⟨(s.1.setDeposit p.id u, s.2), rfl, hi.set hd hopen (hamount ▸ h.amount) ho
    (fun hc => hamount ▸ hroom hc), rfl, trivial, trivial⟩

theorem AtVout.unmatched {m : MatchedDeposit} {s : World × Bool} (hi : Capped w₀ cap s)
    (h : AtVout m s) {p d : DepositDoc} (hp : m.pending = some p)
    (hd : s.1.deposits.get p.id = some d) : d.fairTxid = none := by
  obtain ⟨_, hget, hopen⟩ := h.intent p hp
  cases hget.symm.trans hd
  exact hi.sane.intents _ p hd hopen

/-- The scan of one vout. -/
def voutOutline (hcap : ∀ n, cfg.perAddressDailyCapFair.toSats = .ok n → n = cap)
    (v : ScannedVout) : CreditOutline (dailyRules cfg w₀ cap) () v where
  base _ := 0 ≤ v.vout.value
  done _ := True
  known _ _ := 0 ≤ v.vout.value
  matched := AtVout
  clocked m now s := AtVout m s ∧ now ≤ s.1.now
  summed := Summed w₀
  within m := Summed w₀ m (cap - m.amountSats)
  confirmed _ _ _ _ := True
  base_stable _ _ _ _ _ h := h
  done_stable _ _ _ _ _ h := h
  known_stable _ _ _ _ _ _ h := h
  matched_stable _ _ _ _ _ hst h := h.later hst
  clocked_stable _ _ _ _ _ _ hst h := ⟨h.1.later hst, h.2.trans hst.now⟩
  summed_stable := Summed.stable
  within_stable m := Summed.stable m _
  confirmed_stable _ _ _ _ _ _ _ _ h := h
  rest _ := trivial
  summed_matched _ _ _ _ h := h.1
  within_matched _ _ _ h := h.1
  unaddressed _ _ _ _ := trivial
  address a _ s hi h := by
    refine ⟨((s.1.lookUp a v.key), s.2), rfl, ⟨?_, hi.capped⟩, rfl, ?_⟩
    · exact ⟨hi.sane.amounts, hi.sane.values, hi.sane.intents⟩
    · split
      · exact h
      · trivial
  intent a _ s p _ h hp hf := by
    rw [Bool.and_eq_true] at hf
    refine ⟨roundHalfUp_nonneg (mul_nonneg h (by norm_num)), ?_⟩
    intro p' hp'
    cases hp'
    exact ⟨rfl, Collection.get_of_mem hp, hf.2⟩
  earliest a _ s origin _ h _ _ :=
    ⟨roundHalfUp_nonneg (mul_nonneg h (by norm_num)), fun p hp => by cases hp⟩
  already _ _ _ _ _ _ _ := trivial
  unsolicited m _ := by
    refine Deposit.performs_create (fun s hi h _ => ?_) fun _ _ _ => trivial
    exact daily_insert hi h rfl rfl fun hc => by cases hc
  refuseIntent m p hp := by
    refine Deposit.performs_setVoutById rfl rfl (fun s d hi h hd => h.unmatched hi hp hd)
      (fun s d hi h hd _ => ?_) (fun _ _ _ _ => trivial) fun _ _ _ => trivial
    exact daily_set hi h hp hd rfl rfl fun hc => by cases hc
  refuseNew m origin _ _ := by
    refine Deposit.performs_create (fun s hi h _ => ?_) fun _ _ _ => trivial
    exact daily_insert hi h rfl rfl fun hc => by cases hc
  clock _ _ _ h := ⟨h, Nat.le_refl _⟩
  daily m origin now ho := by
    refine Deposit.performs_findAll (fun s out hi h hmay => ⟨h.1, ?_⟩) fun _ _ _ => trivial
    intro origin' ho'
    cases ho.symm.trans ho'
    exact creditIn_le_sum hi h.2 (Faults.guarded_may hmay)
  room m n perAddressCapSats s _ hc hroom h := by
    refine ⟨h.1, ?_⟩
    intro origin ho
    have hle := h.2 origin ho
    have hcap := hcap _ hc
    omega
  record m r s hi h := ⟨({ s.1 with minedSinceRead := r }, s.2), rfl,
    ⟨⟨hi.sane.amounts, hi.sane.values, hi.sane.intents⟩, hi.capped⟩, rfl,
    ⟨h.1.amount, h.1.intent⟩, h.2⟩
  confirmIntent m p postFeeWei hp _ := by
    refine Deposit.performs_setVout rfl rfl (fun s d hi h hd => h.1.unmatched hi hp hd)
      (fun s d hi h hd _ _ => ?_) (fun _ _ _ _ => trivial) fun _ _ _ => trivial
    refine daily_set hi h.1 hp hd rfl rfl fun _ => ?_
    obtain ⟨horigin, hget, _⟩ := h.1.intent p hp
    cases hget.symm.trans hd
    have hle := h.2 p horigin
    omega
  confirmNew m origin postFeeWei _ ho _ := by
    refine Performs.post (M := Answered (fun _ _ => True) fun _ => True)
      (Deposit.performs_create (fun s hi h _ => ?_) fun _ _ _ => trivial) ?_
    · refine daily_insert hi h.1 rfl rfl fun _ => ?_
      have hle := h.2 origin ho
      change creditIn w₀ s origin.baseAddress + m.amountSats ≤ cap
      omega
    · intro r _ _ _
      cases r with
      | ok _ => trivial
      | error _ => exact ⟨trivial, fun _ => trivial⟩
  enqueue _ _ _ _ _ := Deposit.performs_addMintJob (fun s hi _ =>
    ⟨(s.1.enqueueMint _, s.2), rfl, ⟨⟨hi.sane.amounts, hi.sane.values, hi.sane.intents⟩,
      hi.capped⟩, rfl, trivial, trivial⟩) fun _ _ _ => trivial

theorem daily_processBlock (hcap : ∀ n, cfg.perAddressDailyCapFair.toSats = .ok n → n = cap)
    (height tip : Nat) :
    (dailyRules cfg w₀ cap).Triple () (fun _ => True) (processBlock cfg height tip)
      (fun _ _ => True) (fun _ _ => True) := by
  refine Triple.weaken (processBlock_chain (fun _ => True)
    (fun _ vouts _ => ∀ x ∈ vouts, 0 ≤ x.2.value) (fun _ _ _ _ _ h => h)
    (fun _ _ h => h) (fun _ _ _ _ _ _ _ h => h) ?_ ?_) (fun _ _ h => h)
    (fun _ _ _ _ => trivial) fun _ _ _ h => h
  · refine performs_read (fun _ => rfl) ?_ ?_ fun _ _ _ _ => trivial
    · intro w y w' hy
      simp only [effect] at hy
      split at hy <;> cases hy <;> rfl
    · intro s y hi _ hy
      simp only [effect] at hy
      split at hy <;> cases hy
      · rename_i b hb
        cases height with
        | zero =>
            cases hb
            intro x hx
            cases hx
        | succ n => exact hi.sane.values b (List.mem_of_getElem? hb)
      · trivial
  · intro b x vouts s hi h
    refine ((voutOutline hcap ⟨x.1, x.2, height, tip⟩).toVoutOutline.processVout s hi
      (h x List.mem_cons_self)).weaken (fun _ _ _ _ => ?_) fun _ _ _ h => h
    exact fun y hy => h y (List.mem_cons_of_mem x hy)

theorem daily_starts (hcap : ∀ n, cfg.perAddressDailyCapFair.toSats = .ok n → n = cap) :
    (dailyRules cfg w₀ cap).Starts := by
  intro i t s hi _ hready
  cases t with
  | processBlock height tip => exact daily_processBlock hcap height tip s hi trivial
  | _ => cases hready

end Run
end DailyCap

namespace Sample

def dailyConfig : Config := { config with perAddressDailyCapFair := .finite 10 }

/-- A day and an hour go by. -/
def lateIntent : List (Event JsError Unit Task EnvEvent) := [.env (.wait 90000000)]

def dailyScans : List (Event JsError Unit Task EnvEvent) :=
  .start () (.processBlock 1 2) :: List.replicate 11 (.step () .done) ++
    .start () (.processBlock 2 2) :: List.replicate 12 (.step () .done)

theorem capWorld_sane : SaneDeposits capWorld := by
  refine ⟨by decide +kernel, ?_, ?_⟩
  · intro b hb x hx
    have hb : b ∈ [payment txid, payment laterTxid] := hb
    have hten : (0 : ℚ) ≤ 10 := by norm_num
    simp only [List.mem_cons, List.not_mem_nil, or_false] at hb
    cases hb with
    | inl hb | inr hb =>
        subst hb
        rw [List.mem_singleton.mp hx]
        exact hten
  · intro id d hd ho
    have hd' : d ∈ capWorld.deposits.docs := Collection.get_mem hd
    have hall : ∀ d ∈ capWorld.deposits.docs, d.isOpen = true → d.fairTxid = none := by
      decide +kernel
    exact hall d hd' ho

/-- The second payment is refused. -/
def cappedScans : List (Event JsError Unit Task EnvEvent) :=
  .start () (.processBlock 1 2) :: List.replicate 11 (.step () .done) ++
    .start () (.processBlock 2 2) :: List.replicate 8 (.step () .done)

end Sample

/-- An intent of yesterday and a new deposit at its address are confirmed one after
the other, each for as much as the cap allows. -/
theorem aged_intent_exceeds_daily_cap : SaneDeposits Sample.capWorld ∧ ∃ p r,
    (service Sample.dailyConfig scanRuns).exec (.init Sample.capWorld) Sample.lateIntent =
      some p ∧
    (service Sample.dailyConfig scanRuns).exec p Sample.dailyScans = some r ∧
    r.world.now ≤ p.world.now + dayMs ∧
    ¬ (p.world.creditSats r.world ⟨7⟩ : ℚ) ≤ 10 * 10 ^ 8 := by
  have h : ((service Sample.dailyConfig scanRuns).exec (.init Sample.capWorld)
      Sample.lateIntent).bind (fun p =>
        ((service Sample.dailyConfig scanRuns).exec p Sample.dailyScans).map fun r =>
          (p.world.now, r.world.now, p.world.creditSats r.world ⟨7⟩)) =
      some (90000000, 90000000, 2000000000) := by decide +kernel
  obtain ⟨p, hp, hr⟩ := Option.bind_eq_some_iff.mp h
  obtain ⟨r, hr, hvals⟩ := Option.map_eq_some_iff.mp hr
  have hpnow : p.world.now = 90000000 := congrArg Prod.fst hvals
  have hrnow : r.world.now = 90000000 := congrArg (fun x => x.2.1) hvals
  have hsum : p.world.creditSats r.world ⟨7⟩ = 2000000000 := congrArg (fun x => x.2.2) hvals
  refine ⟨Sample.capWorld_sane, p, r, hp, hr, by omega, ?_⟩
  rw [hsum]
  norm_num

/-- Between any two moments of a run, so in particular within 24 hours, no address is
credited more than the cap, as long as every sum that is read takes in what was
confirmed since the first of the two. -/
theorem daily_credit_stays_capped (cfg : Config) {q : ℚ} {n : Int}
    (hcap : cfg.perAddressDailyCapFair = .finite q) (hsats : q * 10 ^ 8 = n) (hpos : 0 ≤ n)
    {w : World} (hw : SaneDeposits w) {p r : Pool Op JsError World Unit}
    {es fs : List (Event JsError Unit Task EnvEvent)}
    (hp : (service cfg scanRuns).exec (.init w) es = some p)
    (hr : (service cfg scanRuns).exec p fs = some r)
    (hcp : (service cfg scanRuns).meets (countsSince p.world) (.init w) es = true)
    (hcr : (service cfg scanRuns).meets (countsSince p.world) p fs = true) (a : Address) :
    (p.world.creditSats r.world a : ℚ) ≤ q * 10 ^ 8 := by
  have hsame : ∀ m, cfg.perAddressDailyCapFair.toSats = .ok m → m = n := by
    intro m hm
    have hq : q * 100000000 = (n : ℚ) := by rw [← hsats]; norm_num
    rw [hcap, JsNumber.toSats, JsNumber.timesSatsPerFair, hq, JsNumber.nearest] at hm
    split at hm
    · cases hm
    · rw [JsNumber.round, roundHalfUp_int, JsNumber.toBigInt_int] at hm
      exact (Except.ok.inj hm).symm
  have hinit : (DailyCap.dailyRules cfg p.world n).Good (.init w) (w, false) :=
    .init rfl ⟨hw, fun _ => hpos⟩ fun _ => trivial
  have hexec := System.exec_guarded _ hp hcp
  have hexec' := System.exec_guarded _ hr hcr
  rw [service_guarded] at hexec hexec'
  obtain ⟨s, hs, _⟩ := hinit.exec (fun _ _ _ => trivial) (DailyCap.daily_starts hsame) hexec
  -- from here on, what is confirmed counts
  have hself : ∀ b, DailyCap.creditIn p.world (p.world, true) b = 0 := creditSats_self p.world
  have hsworld : s.1 = p.world := hs.world
  have hinv : DailyCap.Capped p.world n (p.world, true) :=
    ⟨hsworld ▸ hs.inv.sane, fun b => (hself b).symm ▸ hpos⟩
  have hfrom : (DailyCap.dailyRules cfg p.world n).Good p (p.world, true) := by
    refine hs.shift rfl hinv fun _ => ⟨?_, ?_, Nat.le_of_eq (congrArg World.now hsworld)⟩
    · rw [hsworld]
      exact fun _ _ hd => hd
    · intro b
      rw [hself b, DailyCap.creditIn]
      split
      · rw [hsworld, creditSats_self]
      · exact Int.le_refl 0
  obtain ⟨t, ht, hflag⟩ := hfrom.exec (fun _ _ _ => trivial) (DailyCap.daily_starts hsame) hexec'
  have hflag : t.2 = true := hflag
  have htworld : t.1 = r.world := ht.world
  have hle := ht.inv.capped a
  rw [DailyCap.creditIn, hflag, if_pos rfl, htworld] at hle
  rw [hsats]
  exact_mod_cast hle

theorem fresh_intent_stays_capped : ∃ p r,
    (service Sample.dailyConfig scanRuns).exec (.init Sample.capWorld) [] = some p ∧
    (service Sample.dailyConfig scanRuns).exec p Sample.cappedScans = some r ∧
    p.world.creditSats r.world ⟨7⟩ = 1000000000 ∧
    (p.world.creditSats r.world ⟨7⟩ : ℚ) ≤ 10 * 10 ^ 8 := by
  have h : ((service Sample.dailyConfig scanRuns).exec (.init Sample.capWorld)
      Sample.cappedScans).map (fun r => Sample.capWorld.creditSats r.world ⟨7⟩) =
      some 1000000000 := by decide +kernel
  obtain ⟨r, hr, hsum⟩ := Option.map_eq_some_iff.mp h
  refine ⟨.init Sample.capWorld, r, rfl, hr, hsum, ?_⟩
  exact daily_credit_stays_capped Sample.dailyConfig (n := 1000000000) rfl (by norm_num)
    (by decide) Sample.capWorld_sane
    (show (service Sample.dailyConfig scanRuns).exec (.init Sample.capWorld) [] = _ from rfl)
    hr rfl (by decide +kernel) ⟨7⟩

end FairBridge

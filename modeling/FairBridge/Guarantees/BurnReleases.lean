import FairBridge.Signer.ReleaseOutline
import FairBridge.Worker.BurnOutline

/-!
One burn, from its log to its payment. However often the watcher passes over the
log and the orphans, and however often the signer's runs end early, the burn is
paid at most once, and what is paid is what its log says.
-/

namespace FairBridge
open Store Async Async.Rules

/-- Watchers may overlap, the runs of the signer do not. -/
inductive ReleaseSlot where
  | watcher (n : Nat)
  | signer
  deriving DecidableEq

/-- Passes over the burn's log and over the orphans, and runs of the signer for
the burn's queued jobs. A payment that raises has no effect, and nothing goes
wrong between a payment and the update that files its txid. -/
def burnRuns (l : BurnLog) : Faults ReleaseSlot where
  ready w i t := match i, t with
    | .watcher _, .processLog log => log.burnLog == some l
    | .watcher _, .reconcileOrphanWithdrawals => true
    | .signer, .signRelease job => job.key == l.key && w.releaseQueue.any fun j => j.data == job
    | _, _ => false
  may _ op out _ := match op with
    | .sendToAddress _ _ _ => !out.isLost
    | .withdrawal (.updateOne _ u) => u.fairTxid.isNone || !out.isFail
    | _ => true
  mayKill _ op _ := match op with
    | .withdrawal (.updateOne _ u) => u.fairTxid.isNone
    | _ => true
  row _ := none

/-- What a row of the burn says. Only a CONFIRMED row gets a job. -/
structure BurnRow (cfg : Config) (l : BurnLog) (d : WithdrawalDoc) : Prop where
  destination : d.destinationFairAddress = l.faircoinAddress
  amount : d.status = .confirmed → applyFee l.amountSats cfg.bridgeFeeBps = .ok d.amountSats
  kept : d.fairTxid ≠ none → d.status ≠ .failed

def World.hasRow (l : BurnLog) (id : ObjectId) (w : World) : Prop :=
  ∃ d, w.withdrawals.get id = some d ∧ d.key = l.key

/-- What a job of the burn says. -/
structure BurnJob (cfg : Config) (l : BurnLog) (w : World) (job : ReleaseJob) : Prop where
  destination : job.destinationFairAddress = l.faircoinAddress
  amount : applyFee l.amountSats cfg.bridgeFeeBps = .ok job.amountSats
  row : w.hasRow l job.withdrawalId

/-- What the burn may be paid by. -/
structure BurnPayment (cfg : Config) (l : BurnLog) (s : Send) : Prop where
  address : s.address = l.faircoinAddress
  amount : applyFee l.amountSats cfg.bridgeFeeBps = .ok s.sats
  positive : 0 < s.sats

structure BurnBooks (cfg : Config) (l : BurnLog) (sent : List Send) (w : World) : Prop where
  rows : ∀ id d, w.withdrawals.get id = some d → d.key = l.key → BurnRow cfg l d
  unique : ∀ id id', w.hasRow l id → w.hasRow l id' → id = id'
  jobs : ∀ j ∈ w.releaseQueue, j.data.key = l.key → BurnJob cfg l w j.data
  paid : ∃ paid, w.fair.sends = sent ++ paid ∧ paid.length ≤ 1 ∧
    ∀ s ∈ paid, BurnPayment cfg l s

/-- No txid is on file for the burn. -/
def World.unpaid (l : BurnLog) (w : World) : Prop :=
  ∀ id d, w.withdrawals.get id = some d → d.key = l.key → d.fairTxid = none

/-- What the signer guarantees: rows stay, and so do their txids. -/
def TxidsKept (w w' : World) : Prop :=
  ∀ id d, w.withdrawals.get id = some d → ∃ e, w'.withdrawals.get id = some e ∧
    e.key = d.key ∧ ∀ t, d.fairTxid = some t → e.fairTxid = some t

/-- What the watchers guarantee: they only add rows, and these carry no txid. -/
structure RowsAdded (w w' : World) : Prop where
  kept : ∀ id d, w.withdrawals.get id = some d → w'.withdrawals.get id = some d
  added : ∀ id d, w'.withdrawals.get id = some d → w.withdrawals.get id = some d ∨
    d.fairTxid = none
  sends : w'.fair.sends = w.fair.sends

section Relations
variable {l : BurnLog} {u v w : World}

theorem TxidsKept.refl (w : World) : TxidsKept w w :=
  fun _ d hd => ⟨d, hd, rfl, fun _ h => h⟩

theorem TxidsKept.trans (huv : TxidsKept u v) (hvw : TxidsKept v w) : TxidsKept u w := by
  intro id d hd
  obtain ⟨e, he, hek, het⟩ := huv id d hd
  obtain ⟨f, hf, hfk, hft⟩ := hvw id e he
  exact ⟨f, hf, hfk.trans hek, fun t ht => hft t (het t ht)⟩

theorem TxidsKept.hasRow (h : TxidsKept u v) {id : ObjectId} (hr : u.hasRow l id) :
    v.hasRow l id := by
  obtain ⟨d, hd, hk⟩ := hr
  obtain ⟨e, he, hek, _⟩ := h id d hd
  exact ⟨e, he, hek.trans hk⟩

theorem RowsAdded.refl (w : World) : RowsAdded w w :=
  ⟨fun _ _ h => h, fun _ _ h => Or.inl h, rfl⟩

theorem RowsAdded.trans (huv : RowsAdded u v) (hvw : RowsAdded v w) : RowsAdded u w where
  kept id d hd := hvw.kept id d (huv.kept id d hd)
  added id d hd := by
    cases hvw.added id d hd with
    | inl h => exact huv.added id d h
    | inr h => exact Or.inr h
  sends := hvw.sends.trans huv.sends

theorem RowsAdded.txids (h : RowsAdded u v) : TxidsKept u v :=
  fun id d hd => ⟨d, h.kept id d hd, rfl, fun _ ht => ht⟩

theorem RowsAdded.same (hw : v.withdrawals = u.withdrawals)
    (hs : v.fair.sends = u.fair.sends) : RowsAdded u v where
  kept _ _ h := hw ▸ h
  added _ _ h := Or.inl (hw ▸ h)
  sends := hs

theorem RowsAdded.unpaid (h : RowsAdded u v) (hv : v.unpaid l) : u.unpaid l :=
  fun id d hd hk => hv id d (h.kept id d hd) hk

end Relations

variable {cfg : Config} {l : BurnLog} {sent : List Send}

theorem BurnJob.later {w w' : World} {job : ReleaseJob} (h : BurnJob cfg l w job)
    (hw : TxidsKept w w') : BurnJob cfg l w' job :=
  ⟨h.destination, h.amount, hw.hasRow h.row⟩

/-- Nothing the books of the burn speak of has changed. -/
theorem BurnBooks.same {w w' : World} (hi : BurnBooks cfg l sent w)
    (hw : w'.withdrawals = w.withdrawals) (hq : w'.releaseQueue = w.releaseQueue)
    (hs : w'.fair.sends = w.fair.sends) : BurnBooks cfg l sent w' where
  rows := by simpa only [hw] using hi.rows
  unique := by simpa only [World.hasRow, hw] using hi.unique
  jobs j hj hk := (hi.jobs j (hq ▸ hj) hk).later (RowsAdded.same hw hs).txids
  paid := by simpa only [hs] using hi.paid

def ReleaseSlot.rely : ReleaseSlot → World → World → Prop
  | .watcher _ => TxidsKept
  | .signer => RowsAdded

def ReleaseSlot.guar : ReleaseSlot → World → World → Prop
  | .watcher _ => RowsAdded
  | .signer => TxidsKept

/-- A run of the signer leaves no payment behind that is not on file. -/
def ReleaseSlot.rest (l : BurnLog) (sent : List Send) : ReleaseSlot → World → Prop
  | .watcher _, _ => True
  | .signer, w => w.unpaid l → w.fair.sends = sent

def burnRules (cfg : Config) (l : BurnLog) (sent : List Send) :
    Rules (service cfg (burnRuns l)) World where
  world w := w
  inv := BurnBooks cfg l sent
  rely := ReleaseSlot.rely
  guar := ReleaseSlot.guar
  rest := ReleaseSlot.rest l sent
  hist := TxidsKept
  rely_refl i w := by
    cases i with
    | watcher _ => exact .refl w
    | signer => exact .refl w
  rely_trans {i} _ _ _ huv hvw := by
    cases i with
    | watcher _ => exact TxidsKept.trans huv hvw
    | signer => exact RowsAdded.trans huv hvw
  guar_refl i w := by
    cases i with
    | watcher _ => exact .refl w
    | signer => exact .refl w
  guar_rely {i j} _ _ hij _ _ h := by
    cases i with
    | watcher _ =>
        cases j with
        | watcher _ => exact RowsAdded.txids h
        | signer => exact h
    | signer =>
        cases j with
        | watcher _ => exact h
        | signer => exact absurd rfl hij
  rest_stable {i} _ _ _ _ h hr := by
    cases i with
    | watcher _ => trivial
    | signer => exact fun hu => (RowsAdded.sends h).trans (hr (RowsAdded.unpaid h hu))
  hist_refl := .refl
  hist_trans := TxidsKept.trans
  guar_hist {i} _ _ _ _ h := by
    cases i with
    | watcher _ => exact RowsAdded.txids h
    | signer => exact h
  env_step hi he := by
    have hsur := EnvEvent.occur_surroundings he
    have hadded := RowsAdded.same hsur.withdrawals hsur.sends
    refine ⟨_, rfl, hi.same hsur.withdrawals hsur.releaseQueue hsur.sends, hadded.txids, ?_⟩
    intro i
    cases i with
    | watcher _ => exact hadded.txids
    | signer => exact hadded

section Watcher

theorem RowsAdded.insert (w : World) {d : WithdrawalDoc} (hd : d.fairTxid = none) :
    RowsAdded w (w.insertWithdrawal d) where
  kept _ _ h := World.get_insertWithdrawal_old h
  added id e he := by
    rw [World.get_insertWithdrawal] at he
    split at he
    · cases he
      exact Or.inr hd
    · exact Or.inl he
  sends := rfl

/-- The burn gets its row. -/
theorem BurnBooks.insert {w : World} (hi : BurnBooks cfg l sent w) {d : WithdrawalDoc}
    (hnew : ∀ e ∈ w.withdrawals.docs, e.key ≠ l.key) (hd : d.key = l.key)
    (hrow : BurnRow cfg l d) : BurnBooks cfg l sent (w.insertWithdrawal d) := by
  have hget : ∀ id e, (w.insertWithdrawal d).withdrawals.get id = some e → e.key = l.key →
      id = w.withdrawals.nextId ∧
        e = { d with id := w.withdrawals.nextId, createdAt := w.now } := by
    intro id e he hk
    rw [World.get_insertWithdrawal] at he
    split at he
    · rename_i hid
      cases he
      exact ⟨hid, rfl⟩
    · exact absurd hk (hnew e (Collection.get_mem he))
  have hnone : ∀ id, ¬ w.hasRow l id := by
    intro id h
    obtain ⟨e, he, hk⟩ := h
    exact hnew e (Collection.get_mem he) hk
  refine ⟨?_, ?_, ?_, hi.paid⟩
  · intro id e he hk
    obtain ⟨_, rfl⟩ := hget id e he hk
    exact ⟨hrow.destination, hrow.amount, hrow.kept⟩
  · intro id id' h h'
    obtain ⟨e, he, hk⟩ := h
    obtain ⟨e', he', hk'⟩ := h'
    exact (hget id e he hk).1.trans (hget id' e' he' hk').1.symm
  · intro j hj hk
    exact absurd (hi.jobs j hj hk).row (hnone _)

/-- A job is added that says what the burn's log says. -/
theorem BurnBooks.enqueue {w : World} (hi : BurnBooks cfg l sent w) {job : ReleaseJob}
    (hjob : job.key = l.key → BurnJob cfg l w job) :
    BurnBooks cfg l sent (w.enqueueRelease job) where
  rows := hi.rows
  unique := hi.unique
  jobs j hj hk := by
    have h : BurnJob cfg l w j.data := by
      cases JobQueue.mem_add hj with
      | inl hj => exact hi.jobs j hj hk
      | inr hj =>
          subst hj
          exact hjob hk
    exact h.later (RowsAdded.same rfl rfl).txids
  paid := hi.paid

theorem burn_create {n : Nat} {d : WithdrawalDoc} (hd : d.key = l.key)
    (hrow : BurnRow cfg l d) (htxid : d.fairTxid = none) :
    (burnRules cfg l sent).Performs (.watcher n) (fun _ => True) (.withdrawal (.create d))
      (Answered (fun e s => s.hasRow l e.id) fun _ => True) := by
  refine Withdrawal.performs_create ?_ fun _ _ _ => trivial
  intro w hi _ hnew
  refine ⟨_, rfl, hi.insert (hd ▸ hnew) hd hrow, RowsAdded.insert w htxid, ?_, trivial⟩
  exact ⟨_, World.get_insertWithdrawal_new w d, hd⟩

theorem hasRow_stable (n : Nat) (id : ObjectId) :
    (burnRules cfg l sent).Stable (.watcher n) fun w => w.hasRow l id :=
  fun _ _ _ _ h hr => TxidsKept.hasRow h hr

/-- A pass over the log: it enqueues only what it has just recorded. -/
def burnOutline (cfg : Config) (l : BurnLog) (sent : List Send) (n : Nat) :
    BurnOutline (burnRules cfg l sent) (.watcher n) cfg l where
  base _ := True
  recorded _ := True
  created sats d w := applyFee l.amountSats cfg.bridgeFeeBps = .ok sats ∧ w.hasRow l d.id
  base_stable _ _ _ _ _ _ := trivial
  recorded_stable _ _ _ _ _ _ := trivial
  created_stable _ d s t hs ht hst h := ⟨h.1, hasRow_stable n d.id s t hs ht hst h.2⟩
  base_rest _ _ _ := trivial
  recorded_rest _ _ _ := trivial
  created_rest _ _ _ _ _ := trivial
  find := Withdrawal.performs_findOne (fun _ _ _ _ _ _ => trivial) (fun _ _ _ => trivial)
    fun _ _ _ => trivial
  validate := performs_validateAddress fun _ _ _ => trivial
  clock := performs_dateNow
  daily _ := Withdrawal.performs_find (fun _ _ _ _ _ => trivial) fun _ _ _ => trivial
  refuse := by
    refine (burn_create rfl ⟨rfl, ?_, fun h => absurd rfl h⟩ rfl).post ?_
    · intro h
      cases h
    · intro a _ _ _
      cases a <;> trivial
  confirm sats hsats := by
    refine (burn_create rfl ⟨rfl, fun _ => hsats, fun h => absurd rfl h⟩ rfl).post ?_
    intro a _ _ h
    cases a with
    | error _ => trivial
    | ok _ => exact ⟨hsats, h⟩
  enqueue sats d := by
    refine Withdrawal.performs_addReleaseJob ?_ fun _ _ _ => trivial
    intro w hi h
    exact ⟨_, rfl, hi.enqueue fun _ => ⟨rfl, h.1, h.2⟩, .same rfl rfl, trivial, trivial⟩
  notify _ := performs_webhook fun _ _ h => h

/-- What the pass over the orphans knows of the rows it has read. -/
def Orphans (cfg : Config) (l : BurnLog) (ds : List WithdrawalDoc) (w : World) : Prop :=
  ∀ d ∈ ds, d.key = l.key → BurnJob cfg l w d.job

def orphanOutline (cfg : Config) (l : BurnLog) (sent : List Send) (n : Nat) :
    OrphanOutline (burnRules cfg l sent) (.watcher n) where
  base _ := True
  listed := Orphans cfg l
  base_stable _ _ _ _ _ _ := trivial
  listed_stable _ _ _ _ _ hst h d hd hk := (h d hd hk).later hst
  base_rest _ _ _ := trivial
  listed_rest _ _ _ _ := trivial
  clock := performs_dateNow
  find now := by
    refine Withdrawal.performs_find ?_ fun _ _ _ => trivial
    intro w ds hi _ hds d hd hk
    obtain ⟨hmem, hf⟩ := hds d hd
    have hget : w.withdrawals.get d.id = some d := Collection.get_of_mem hmem
    have hrow := hi.rows d.id d hget hk
    simp only [orphanWithdrawal, Bool.and_eq_true, beq_iff_eq] at hf
    exact ⟨hrow.destination, hrow.amount hf.1, d, hget, hk⟩
  enqueue d ds := by
    refine Withdrawal.performs_addReleaseJob ?_ fun _ _ _ => trivial
    intro w hi h
    refine ⟨_, rfl, hi.enqueue (h d List.mem_cons_self), .same rfl rfl, ?_, trivial⟩
    intro e he hk
    exact (h e (List.mem_cons_of_mem d he) hk).later (RowsAdded.same rfl rfl).txids

end Watcher

section Signer
variable {w : World} {id : ObjectId} {d : WithdrawalDoc}

/-- An update that replaces no txid. -/
theorem TxidsKept.update (hd : w.withdrawals.get id = some d) {u : WithdrawalSet}
    (hu : u.fairTxid = none ∨ d.fairTxid = none) : TxidsKept w (w.setWithdrawal id u) := by
  intro i e he
  by_cases hi : i = id
  · subst hi
    cases hd.symm.trans he
    refine ⟨_, World.get_setWithdrawal hd u, rfl, ?_⟩
    intro t ht
    cases hu with
    | inl hu => simp [WithdrawalSet.apply, hu, ht]
    | inr hn =>
        rw [hn] at ht
        cases ht
  · exact ⟨e, (Collection.get_modify_other _ u hi).trans he, rfl, fun _ h => h⟩

/-- An update of the burn's row that makes it neither CONFIRMED nor, if it has a
txid, FAILED. -/
theorem BurnBooks.update (hi : BurnBooks cfg l sent w) (hd : w.withdrawals.get id = some d)
    {u : WithdrawalSet} (hconf : u.status ≠ some .confirmed)
    (hkept : (u.apply d).fairTxid ≠ none → (u.apply d).status ≠ .failed)
    (htxids : TxidsKept w (w.setWithdrawal id u)) :
    BurnBooks cfg l sent (w.setWithdrawal id u) := by
  have hrows : ∀ i, (w.setWithdrawal id u).hasRow l i → w.hasRow l i := by
    intro i h
    obtain ⟨e, he, hk⟩ := h
    by_cases hid : i = id
    · subst hid
      cases (World.get_setWithdrawal hd u).symm.trans he
      exact ⟨d, hd, hk⟩
    · exact ⟨e, (Collection.get_modify_other _ u hid).symm.trans he, hk⟩
  refine ⟨?_, fun i j h h' => hi.unique i j (hrows i h) (hrows j h'), ?_, hi.paid⟩
  · intro i e he hk
    by_cases hid : i = id
    · subst hid
      cases (World.get_setWithdrawal hd u).symm.trans he
      have hrow := hi.rows i d hd hk
      refine ⟨hrow.destination, ?_, hkept⟩
      intro hst
      cases hu : u.status with
      | none => exact hrow.amount (by simpa [WithdrawalSet.apply, hu] using hst)
      | some st =>
          have : st = .confirmed := by simpa [WithdrawalSet.apply, hu] using hst
          rw [hu, this] at hconf
          exact absurd rfl hconf
    · exact hi.rows i e ((Collection.get_modify_other _ u hid).symm.trans he) hk
  · exact fun j hj hk => (hi.jobs j hj hk).later htxids

/-- The row a run works on, as it is while nothing has been sent for it. -/
structure OwnRow (l : BurnLog) (sent : List Send) (job : ReleaseJob) (d : WithdrawalDoc)
    (w : World) : Prop where
  row : w.withdrawals.get job.withdrawalId = some d
  key : d.key = l.key
  rest : w.unpaid l → w.fair.sends = sent

/-- A payment was made and its txid is not on the row yet. -/
structure PaidRow (l : BurnLog) (job : ReleaseJob) (w : World) : Prop where
  row : ∃ d, w.withdrawals.get job.withdrawalId = some d ∧ d.key = l.key ∧
    d.fairTxid = none ∧ d.status = .signing

/-- The txid is on the row. -/
structure FiledRow (l : BurnLog) (job : ReleaseJob) (w : World) : Prop where
  row : ∃ d, w.withdrawals.get job.withdrawalId = some d ∧ d.key = l.key ∧ d.fairTxid ≠ none

theorem OwnRow.later {job : ReleaseJob} {w' : World} (h : OwnRow l sent job d w)
    (hw : RowsAdded w w') : OwnRow l sent job d w' :=
  ⟨hw.kept _ d h.row, h.key, fun hu => hw.sends.trans (h.rest (hw.unpaid hu))⟩

/-- A row without a txid is the only one, so nothing has been sent. -/
theorem OwnRow.unsent {job : ReleaseJob} (hi : BurnBooks cfg l sent w)
    (h : OwnRow l sent job d w) (hn : d.fairTxid = none) : w.fair.sends = sent := by
  refine h.rest ?_
  intro i e he hk
  have hid := hi.unique i job.withdrawalId ⟨e, he, hk⟩ ⟨d, h.row, h.key⟩
  subst hid
  cases h.row.symm.trans he
  exact hn

/-- With a txid on file there is nothing left to do. -/
theorem FiledRow.rest {job : ReleaseJob} (h : FiledRow l job w) :
    ReleaseSlot.rest l sent .signer w := by
  obtain ⟨d, hd, hk, ht⟩ := h.row
  exact fun hu => absurd (hu _ d hd hk) ht

/-- The payment leaves the wallet. -/
theorem BurnBooks.send (hi : BurnBooks cfg l sent w) (hs : w.fair.sends = sent)
    {row : Option ObjectId} {address : String} {sats : Int}
    (hp : ∀ txid, BurnPayment cfg l ⟨txid, address, sats, row, none⟩) :
    BurnBooks cfg l sent (w.send row address sats none) := by
  refine ⟨hi.rows, hi.unique, ?_, ?_⟩
  · exact fun j hj hk => (hi.jobs j hj hk).later (TxidsKept.refl w)
  · refine ⟨[⟨w.fair.txidOf w.fair.sends.length, address, sats, row, none⟩], ?_, Nat.le_refl _, ?_⟩
    · rw [← hs]
      rfl
    · intro s hmem
      rw [List.mem_singleton.mp hmem]
      exact hp _

variable {job : ReleaseJob}

theorem burn_broadcast (hjob : BurnJob cfg l w job) (hst : d.status = .signing)
    (hnone : d.fairTxid = none) :
    (burnRules cfg l sent).Performs .signer (OwnRow l sent job d)
      (.sendToAddress job.destinationFairAddress (satsToFair job.amountSats) none)
      (Answered (fun _ => PaidRow l job) (ReleaseSlot.rest l sent .signer)) := by
  have called : ∀ s : World, BurnBooks cfg l sent s → BurnBooks cfg l sent
      (recordCall (.sendToAddress job.destinationFairAddress (satsToFair job.amountSats) none) s) :=
    fun s hi => hi.same rfl rfl rfl
  refine performs ?_ ?_
  · intro s e hi hs _ _
    exact ⟨_, rfl, called s hi, (RowsAdded.same rfl rfl).txids, hs.rest⟩
  · intro s x w out hi hs hmay hx
    cases effect_sendToAddress hx with
    | inl h =>
        obtain ⟨e, rfl, rfl⟩ := h
        exact ⟨_, rfl, called s hi, (RowsAdded.same rfl rfl).txids, fun _ => hs.rest,
          fun _ _ _ => hs.rest⟩
    | inr h =>
        obtain ⟨rfl, rfl, hpos, _⟩ := h
        rw [fairValueToSats_satsToFair] at hpos ⊢
        have hsent : s.fair.sends = sent := hs.unsent hi hnone
        refine ⟨_, rfl, (called s hi).send hsent ?_, (RowsAdded.same rfl rfl).txids, ?_, ?_⟩
        · exact fun _ => ⟨hjob.destination, hjob.amount, hpos⟩
        · exact fun _ => ⟨d, hs.row, hs.key, hnone, hst⟩
        · intro e he _
          rw [he] at hmay
          cases hmay

theorem burn_claim (hnone : d.fairTxid = none) :
    (burnRules cfg l sent).Performs .signer (OwnRow l sent job d)
      (.withdrawal (.findOneAndUpdate (fun d => d.id == job.withdrawalId && releasable d) none
        { status := some .signing }))
      (Answered (Found (OwnRow l sent job) fun s => ReleaseSlot.rest l sent .signer s ∧
        s.hasRow l job.withdrawalId) (ReleaseSlot.rest l sent .signer)) := by
  refine Withdrawal.performs_claimRelease ?_ ?_ fun _ _ hs => hs.rest
  · intro s e out hi hs he _ _
    cases hs.row.symm.trans he
    have htx : TxidsKept s (s.setWithdrawal job.withdrawalId { status := some .signing }) :=
      .update he (Or.inl rfl)
    have hsent := hs.unsent hi hnone
    refine ⟨_, rfl, hi.update he ?_ (fun h => absurd hnone h) htx, htx,
      ⟨World.get_setWithdrawal he _, hs.key, fun _ => hsent⟩, fun _ => hsent⟩
    intro h
    cases h
  · exact fun s _ hs _ => ⟨hs.rest, d, hs.row, hs.key⟩

theorem burn_reject (hnone : d.fairTxid = none) :
    (burnRules cfg l sent).Performs .signer (OwnRow l sent job d)
      (.withdrawal (.updateOne (fun d => d.id == job.withdrawalId && true)
        { status := some .failed }))
      (Answered (fun _ => ReleaseSlot.rest l sent .signer)
        (ReleaseSlot.rest l sent .signer)) := by
  refine Withdrawal.performs_updateById ?_ fun _ _ _ hs _ => hs.rest
  intro s hi hs
  have htx : TxidsKept s (s.setWithdrawal job.withdrawalId { status := some .failed }) :=
    .update hs.row (Or.inl rfl)
  have hsent := hs.unsent hi hnone
  refine ⟨_, rfl, hi.update hs.row ?_ (fun h => absurd hnone h) htx, htx,
    fun _ => hsent, fun _ => hsent⟩
  intro h
  cases h

theorem burn_persist (t : Txid) (now : Nat) :
    (burnRules cfg l sent).Performs .signer (PaidRow l job)
      (.withdrawal (.updateOne (fun d => d.id == job.withdrawalId && true)
        { fairTxid := some t, fairBroadcastAt := some now }))
      (Answered (fun _ => FiledRow l job) (ReleaseSlot.rest l sent .signer)) := by
  refine Withdrawal.performs_updateById ?_ ?_
  · intro s hi hs
    obtain ⟨d, hd, hk, hn, hst⟩ := hs.row
    have htx : TxidsKept s (s.setWithdrawal job.withdrawalId
        { fairTxid := some t, fairBroadcastAt := some now }) := .update hd (Or.inr hn)
    have hfiled : FiledRow l job (s.setWithdrawal job.withdrawalId
        { fairTxid := some t, fairBroadcastAt := some now }) :=
      ⟨_, World.get_setWithdrawal hd _, hk, by simp [WithdrawalSet.apply]⟩
    refine ⟨_, rfl, hi.update hd ?_ ?_ htx, htx, hfiled, hfiled.rest⟩
    · intro h
      cases h
    · simp [WithdrawalSet.apply, hst]
  · intro s e _ _ hmay
    cases hmay

theorem burn_finish (sentAt : Option Nat) :
    (burnRules cfg l sent).Performs .signer (FiledRow l job)
      (.withdrawal (.updateOne (fun d => d.id == job.withdrawalId && true)
        { status := some .broadcast, fairBroadcastAt := sentAt }))
      (Answered (fun _ => ReleaseSlot.rest l sent .signer)
        (ReleaseSlot.rest l sent .signer)) := by
  refine Withdrawal.performs_updateById ?_ fun _ _ _ hs _ => hs.rest
  intro s hi hs
  obtain ⟨d, hd, hk, ht⟩ := hs.row
  have htx : TxidsKept s (s.setWithdrawal job.withdrawalId
      { status := some .broadcast, fairBroadcastAt := sentAt }) := .update hd (Or.inl rfl)
  have hfiled : FiledRow l job (s.setWithdrawal job.withdrawalId
      { status := some .broadcast, fairBroadcastAt := sentAt }) :=
    ⟨_, World.get_setWithdrawal hd _, hk, ht⟩
  refine ⟨_, rfl, hi.update hd ?_ ?_ htx, htx, hfiled.rest, hfiled.rest⟩
  · intro h
    cases h
  · simp [WithdrawalSet.apply]

theorem burn_aside {s w : World} (hi : BurnBooks cfg l sent s)
    (hs : ReleaseSlot.rest l sent .signer s) (hw : SameBooks s w) :
    ∃ t, (burnRules cfg l sent).world t = w ∧ (burnRules cfg l sent).inv t ∧
      (burnRules cfg l sent).guar .signer s t ∧ ReleaseSlot.rest l sent .signer t := by
  have hsends : w.fair.sends = s.fair.sends := by rw [hw.fair]
  have hadded := RowsAdded.same hw.withdrawals hsends
  exact ⟨w, rfl, hi.same hw.withdrawals hw.releaseQueue hsends, hadded.txids,
    fun hu => hsends.trans (hs (hadded.unpaid hu))⟩

/-- A run of the signer for a queued job of the burn. -/
def burnReleaseOutline (hjob : BurnJob cfg l w job) :
    ReleaseOutline (burnRules cfg l sent) .signer job where
  start s := ReleaseSlot.rest l sent .signer s ∧ s.hasRow l job.withdrawalId
  seen := OwnRow l sent job
  refused s := ReleaseSlot.rest l sent .signer s ∧ s.hasRow l job.withdrawalId
  held := OwnRow l sent job
  sent _ := PaidRow l job
  filed _ := FiledRow l job
  start_stable s t hs ht hst h :=
    ⟨(burnRules cfg l sent).rest_stable hs ht hst h.1, (RowsAdded.txids hst).hasRow h.2⟩
  seen_stable _ _ _ _ _ hst h := h.later hst
  refused_stable s t hs ht hst h :=
    ⟨(burnRules cfg l sent).rest_stable hs ht hst h.1, (RowsAdded.txids hst).hasRow h.2⟩
  held_stable _ _ _ _ _ hst h := h.later hst
  sent_stable _ _ _ _ _ hst h := by
    obtain ⟨d, hd, h⟩ := h.row
    exact ⟨d, RowsAdded.kept hst _ d hd, h⟩
  filed_stable _ _ _ _ _ hst h := by
    obtain ⟨d, hd, h⟩ := h.row
    exact ⟨d, RowsAdded.kept hst _ d hd, h⟩
  start_rest _ _ h := h.1
  seen_rest _ _ _ h := h.rest
  refused_rest _ _ h := h.1
  held_rest _ _ _ h := h.rest
  filed_rest _ _ _ h := h.rest
  seen_id _ _ _ h := Collection.get_id h.row
  held_id _ _ _ h := Collection.get_id h.row
  resume _ _ _ h _ := h
  reconcile d t s _ h _ ht := ⟨d, h.row, h.key, by rw [ht]; exact Option.some_ne_none t⟩
  read := by
    refine Withdrawal.performs_findById ?_ fun _ _ hs => hs.1
    intro s hi hs
    obtain ⟨hrest, d, hd, hk⟩ := hs
    change Found _ _ (s.withdrawals.get job.withdrawalId) s
    rw [hd]
    exact ⟨hd, hk, hrest⟩
  validate _ _ := performs_validateAddress fun _ _ hs => hs.rest
  reject _ hn := burn_reject hn
  claim _ hn := burn_claim hn
  reread := by
    refine Withdrawal.performs_findById ?_ fun _ _ hs => hs.1
    intro s hi hs
    obtain ⟨hrest, d, hd, hk⟩ := hs
    change Found _ _ (s.withdrawals.get job.withdrawalId) s
    rw [hd]
    exact ⟨hd, hk, hrest⟩
  lookup _ := performs_getRawTransaction fun _ _ h => h
  clock _ := performs_dateNow
  broadcast _ hst hn := burn_broadcast hjob hst hn
  clock_sent _ := performs_dateNow
  clock_settled _ _ _ _ hkill := by cases hkill
  sent_settled _ _ _ _ _ hkill := by cases hkill
  persist := burn_persist
  finish _ := burn_finish
  notify _ := performs_webhook fun _ _ h => h
  record _ := performs_auditLog fun _ _ hi hs hw => burn_aside hi hs hw
  deliver _ _ := (performs_buyOrder fun _ _ hi hs hw => burn_aside hi hs hw).post
    fun a _ _ h => by cases a <;> exact h

end Signer

theorem burn_starts (cfg : Config) (l : BurnLog) (sent : List Send) :
    (burnRules cfg l sent).Starts := by
  intro i t s hi hrest hready
  cases i with
  | watcher n =>
      cases t with
      | processLog log =>
          have hlog : log.burnLog = some l := by simpa [service, burnRuns] using hready
          have hprog : Task.program cfg (.processLog log) = recordBurn cfg l := by
            simp only [Task.program, FairBridge.processLog, hlog]
          change (burnRules cfg l sent).Safe _ _ _ (Task.program cfg (.processLog log)) s
          rw [hprog]
          exact ((burnOutline cfg l sent n).recordBurn).weaken (fun _ _ h => h)
            (fun _ _ _ _ => trivial) (fun _ _ _ h => h) s hi trivial
      | reconcileOrphanWithdrawals =>
          exact ((orphanOutline cfg l sent n).reconcileOrphanWithdrawals).weaken
            (fun _ _ h => h) (fun _ _ _ _ => trivial) (fun _ _ _ h => h) s hi trivial
      | _ => cases hready
  | signer =>
      cases t with
      | signRelease job =>
          have hjob : job.key = l.key ∧ ∃ j ∈ s.releaseQueue, j.data = job := by
            simpa [service, burnRuns, burnRules] using hready
          obtain ⟨hk, j, hj, rfl⟩ := hjob
          have hjob := hi.jobs j hj hk
          exact (burnReleaseOutline hjob).signRelease s hi ⟨hrest, hjob.row⟩
      | _ => cases hready

/-- The amount of a burn, and what the fee leaves of it. -/
theorem BurnPayment.sats_eq {s : Send} (h : BurnPayment cfg l s) :
    ∃ fee : Int, cfg.bridgeFeeBps = .finite (fee : ℚ) ∧
      s.sats = (l.burn.amount : Int) / 10 ^ 10 * (10000 - fee) / 10000 := by
  obtain ⟨fee, hfee, hs⟩ := applyFee_ok h.amount
  refine ⟨fee, hfee, ?_⟩
  have hpos := h.positive
  rw [hs] at hpos
  have hamount : l.amountSats = (l.burn.amount : Int) / 10 ^ 10 := by
    rw [BurnLog.amountSats, bigIntDiv, Int.tdiv_eq_ediv_of_nonneg (Int.natCast_nonneg _)]
    rfl
  rw [hs, bigIntDiv_of_pos (by decide) hpos, hamount]
  rfl

namespace Sample

/-- A burn of 10000 sats for the address `fA`. -/
def burnLog : BurnLog := ⟨⟨9⟩, 0, 1, ⟨⟨7⟩, 10000 * 10 ^ 10, [0x66, 0x41]⟩⟩

def log : Log := ⟨some ⟨9⟩, some 0, some 1, some burnLog.burn⟩

def burnWorld : World := { fair := { custodySats := 20000 } }

end Sample

/-- The pass dies before it adds the job, and the run after the payment. -/
def interruptedRelease : List (Event JsError ReleaseSlot Task EnvEvent) :=
  .start (.watcher 0) (.processLog Sample.log) ::
    List.replicate 5 (.step (.watcher 0) .done) ++
    [.kill (.watcher 0), .env (.wait 300001),
      .start (.watcher 1) .reconcileOrphanWithdrawals] ++
    List.replicate 3 (.step (.watcher 1) .done) ++
    .start .signer (.signRelease (Sample.burnLog.job 0 9970)) ::
    List.replicate 6 (.step .signer .done) ++ [.kill .signer]

/-- A second pass and a second run. -/
def resumedRelease : List (Event JsError ReleaseSlot Task EnvEvent) :=
  [.start (.watcher 0) (.processLog Sample.log), .step (.watcher 0) .done,
    .start .signer (.signRelease (Sample.burnLog.job 0 9970))] ++
    List.replicate 3 (.step .signer .done)

end FairBridge

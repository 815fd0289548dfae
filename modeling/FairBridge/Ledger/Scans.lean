import FairBridge.Ledger.Chains
import FairBridge.Worker.BlockOutline

/-!
The watcher of the FairCoin chain as a client of the books. It turns open intents
into matched rows, creates matched rows and adds their jobs; it leaves alone what
was matched before.
-/

namespace FairBridge
open Store Async Async.Rules

/-- A row has the vout. -/
def World.vouched (w : World) (txid : Txid) (n : Nat) : Prop :=
  ∃ d ∈ w.deposits.docs, d.fairTxid = some txid ∧ d.fairVout = some n

/-- What a step of the watcher does to the books: at most `added` more is still
to be minted. -/
structure ScanEffect (added : Int) (w w' : World) : Prop extends Elsewhere w w' where
  txs : w'.base.txs = w.base.txs
  books : DepositBooks w'
  pending : w'.pendingWei ≤ w.pendingWei + added
  rows : ∀ j d, w.deposits.get j = some d → d.isOpen = false → w'.deposits.get j = some d
  intents : ∀ j e, w'.deposits.get j = some e → e.isOpen = true → w.deposits.get j = some e
  vouched : ∀ txid n, w.vouched txid n → w'.vouched txid n

theorem not_vouched {w : World} {txid : Txid} {n : Nat}
    (h : ∀ d ∈ w.deposits.docs, ¬ (d.fairTxid = some txid ∧ d.fairVout = some n)) :
    ¬ w.vouched txid n := by
  intro hv
  obtain ⟨d, hd, hk⟩ := hv
  exact h d hd hk

/-- A row without a vout may get one. -/
theorem vouched_setDeposit {w : World} {id : ObjectId} {d : DepositDoc}
    (hd : w.deposits.get id = some d) (hnone : d.fairTxid = none) (u : DepositSet)
    {txid : Txid} {n : Nat} (h : w.vouched txid n) : (w.setDeposit id u).vouched txid n := by
  obtain ⟨e, he, hx, hn⟩ := h
  refine ⟨e, Collection.mem_modify.mpr (Or.inr ⟨he, ?_⟩), hx, hn⟩
  intro heid
  have hget : w.deposits.get e.id = some e := Collection.get_of_mem he
  rw [show e.id = id from heid, hd] at hget
  cases hget
  rw [hnone] at hx
  cases hx

theorem vouched_insertDeposit {w : World} {d : DepositDoc} {txid : Txid} {n : Nat}
    (h : w.vouched txid n) : (w.insertDeposit d).vouched txid n := by
  obtain ⟨e, he, hk⟩ := h
  exact ⟨e, List.mem_append_left _ he, hk⟩

/-- Open intents have no vout. -/
def IntentsUnmatched (w : World) : Prop :=
  ∀ id d, w.deposits.get id = some d → d.isOpen = true → d.fairTxid = none

theorem IntentsUnmatched.occur {e : EnvEvent} {w w' : World} (hi : IntentsUnmatched w)
    (h : e.occur w = some w') : IntentsUnmatched w' := by
  intro id d hd ho
  cases hold : w.deposits.get id with
  | none => exact (EnvEvent.occur_new h hold hd).2.1
  | some d₀ =>
      cases ((EnvEvent.occur_surroundings h).deposits id d₀ hold).symm.trans hd
      exact hi id d hold ho

theorem IntentsUnmatched.setDeposit {w : World} {id : ObjectId} {d : DepositDoc}
    (hi : IntentsUnmatched w) (hd : w.deposits.get id = some d) {u : DepositSet}
    (hu : (u.apply d).isOpen = true → (u.apply d).fairTxid = none) :
    IntentsUnmatched (w.setDeposit id u) := by
  intro j e he ho
  by_cases hj : j = id
  · subst hj
    cases (World.get_setDeposit hd u).symm.trans he
    exact hu ho
  · exact hi j e ((Collection.get_modify_other _ u hj).symm.trans he) ho

theorem IntentsUnmatched.insertDeposit {w : World} {d : DepositDoc} (hi : IntentsUnmatched w)
    (hd : d.isOpen = true → d.fairTxid = none) : IntentsUnmatched (w.insertDeposit d) := by
  intro j e he ho
  rw [World.get_insertDeposit] at he
  split at he
  · cases he
    exact hd ho
  · exact hi j e he ho

section Effects
variable {w w' : World} {id : ObjectId} {d : DepositDoc} {added : Int}

theorem ScanEffect.undisturbed (h : ScanEffect added w w') (id : ObjectId) :
    RowUndisturbed id w w' where
  row d hd ho := h.rows id d hd ho
  mints := by rw [World.mintsOf, h.txs, World.mintsOf]
  receipts x r hr := by rw [h.receipts, hr]

/-- The step has to do with neither deposits nor jobs. -/
theorem ScanEffect.aside (hb : DepositBooks w) (he : Elsewhere w w')
    (hd : w'.deposits = w.deposits) (hq : w'.mintQueue = w.mintQueue)
    (ht : w'.base.txs = w.base.txs) : ScanEffect 0 w w' := by
  have hmints : ∀ j, w'.mintsOf j = w.mintsOf j := by
    intro j
    rw [World.mintsOf, ht, World.mintsOf]
  have hunminted : w'.unmintedWei = w.unmintedWei := by
    funext d
    rw [World.unmintedWei, World.mintedFor, hmints, he.receipts, World.unmintedWei,
      World.mintedFor]
  refine ⟨he, ht, ⟨?_, ?_, ?_, ?_⟩, ?_, ?_, fun j e he _ => hd ▸ he, ?_⟩
  · intro j d hd'
    rw [hmints, he.receipts]
    exact hb.phase j d (hd ▸ hd')
  · intro j hj
    obtain ⟨d, hrow, hmat, ham⟩ := hb.jobs j (hq ▸ hj)
    exact ⟨d, by rw [hd]; exact hrow, hmat, ham⟩
  · simpa only [ht, hd] using hb.tagged
  · rw [ht]
    exact hb.hashes
  · rw [World.pendingWei, hunminted, hd, World.pendingWei]
    omega
  · intro j d hj _
    rw [hd]
    exact hj
  · simp only [World.vouched, hd]
    exact fun _ _ h => h

/-- A job is added that says what its row says. -/
theorem ScanEffect.enqueue (hb : DepositBooks w) {job : MintJob} (hjob : MintJobOf w job d) :
    ScanEffect 0 w (w.enqueueMint job) := by
  refine ⟨⟨rfl, rfl, rfl, rfl, rfl, rfl, rfl, rfl, rfl, rfl⟩, rfl,
    ⟨hb.phase, ?_, hb.tagged, hb.hashes⟩, ?_, fun _ _ h _ => h, fun _ _ h _ => h,
    fun _ _ h => h⟩
  · intro j hj
    cases JobQueue.mem_add hj with
    | inl hj =>
        obtain ⟨e, he⟩ := hb.jobs j hj
        exact ⟨e, he.row, he.matched, he.amount⟩
    | inr hj =>
        subst hj
        exact ⟨d, hjob.row, hjob.matched, hjob.amount⟩
  · exact Int.le_of_eq (Int.add_zero _).symm

/-- What a scan makes of a row: CONFIRMED with an amount, or FAILED. -/
structure Matched (added : Int) (d : DepositDoc) : Prop where
  status : d.status = .confirmed ∧ d.amountWei = added ∨ d.status = .failed ∧ added = 0
  hash : d.baseMintTxHash = none

theorem Matched.matched (h : Matched added d) : d.isOpen = false := by
  cases h.status with
  | inl h => simp [DepositDoc.isOpen, h.1]
  | inr h => simp [DepositDoc.isOpen, h.1]

theorem Matched.phase {receipts : Hash → Option Receipt} (h : Matched added d) :
    DepositPhase receipts [] d := by
  cases h.status with
  | inl hs => exact .unsent (DepositDoc.live_iff.mpr (Or.inl hs.1)) h.hash rfl
  | inr hs => exact .failed hs.1 (by intro _ htx; cases htx)

theorem Matched.unminted (h : Matched added d) (hm : w.mintsOf d.id = []) :
    w.unmintedWei d = added := by
  cases h.status with
  | inl hs =>
      rw [World.unmintedWei_none (DepositDoc.live_iff.mpr (Or.inl hs.1)) hm, hs.2]
  | inr hs =>
      rw [hs.2]
      exact World.unmintedWei_settled (by simp [DepositDoc.live, hs.1])

/-- An open intent gets its vout. -/
theorem ScanEffect.update (hb : DepositBooks w) (hd : w.deposits.get id = some d)
    (ho : d.isOpen = true) {u : DepositSet} (hmatch : Matched added (u.apply d)) :
    ScanEffect added w (w.setDeposit id u) := by
  have hrow := World.get_setDeposit hd u
  have hid : d.id = id := Collection.get_id hd
  have hother : ∀ j, j ≠ id → (w.setDeposit id u).deposits.get j = w.deposits.get j :=
    fun j hj => Collection.get_modify_other _ u hj
  obtain ⟨htxid, _, hmints⟩ := (hb.phase id d hd).of_open ho
  refine ⟨⟨rfl, rfl, rfl, rfl, rfl, rfl, rfl, rfl, rfl, rfl⟩, rfl, ⟨?_, ?_, ?_, hb.hashes⟩,
    ?_, ?_, ?_, ?_⟩
  · intro j e he
    by_cases hj : j = id
    · subst hj
      cases hrow.symm.trans he
      have hm : (w.setDeposit j u).mintsOf j = [] := hmints
      rw [hm]
      exact hmatch.phase
    · exact hb.phase j e ((hother j hj).symm.trans he)
  · intro j hj
    obtain ⟨e, he, hm, ha⟩ := hb.jobs j hj
    refine ⟨e, (hother _ ?_).trans he, hm, ha⟩
    intro hjid
    rw [hjid] at he
    cases hd.symm.trans he
    rw [ho] at hm
    cases hm
  · intro tx htx
    obtain ⟨j, e, hj, he⟩ := hb.tagged tx htx
    by_cases hid : j = id
    · subst hid
      exact ⟨j, _, hj, hrow⟩
    · exact ⟨j, e, hj, (hother j hid).trans he⟩
  · have hpending : (w.setDeposit id u).pendingWei =
        w.pendingWei - w.unmintedWei d + w.unmintedWei (u.apply d) :=
      w.deposits.sum_modify w.unmintedWei u hd
    have hmints' : w.mintsOf (u.apply d).id = [] := hid ▸ hmints
    have hbefore : w.unmintedWei d = 0 := by
      refine World.unmintedWei_settled ?_
      cases hl : d.live with
      | false => rfl
      | true =>
          rw [DepositDoc.isOpen_of_live hl] at ho
          cases ho
    have hafter := hmatch.unminted hmints'
    omega
  · intro j e he hne
    by_cases hj : j = id
    · subst hj
      cases hd.symm.trans he
      rw [ho] at hne
      cases hne
    · exact (hother j hj).trans he
  · intro j e he hopen
    by_cases hj : j = id
    · subst hj
      cases hrow.symm.trans he
      rw [hmatch.matched] at hopen
      cases hopen
    · exact (hother j hj).symm.trans he
  · exact fun _ _ hv => vouched_setDeposit hd htxid u hv

/-- A row is created with its vout. -/
theorem ScanEffect.insert (hb : DepositBooks w) (hmatch : Matched added d) :
    ScanEffect added w (w.insertDeposit d) := by
  have hmints : w.mintsOf w.deposits.nextId = [] :=
    hb.mintsOf_none (Collection.get_nextId w.deposits)
  have hmatch' : Matched added { d with id := w.deposits.nextId, createdAt := w.now } :=
    ⟨hmatch.status, hmatch.hash⟩
  refine ⟨⟨rfl, rfl, rfl, rfl, rfl, rfl, rfl, rfl, rfl, rfl⟩, rfl, ⟨?_, ?_, ?_, hb.hashes⟩,
    ?_, fun _ _ he _ => World.get_insertDeposit_old he, ?_, ?_⟩
  · intro j e he
    rw [World.get_insertDeposit] at he
    split at he
    · rename_i hj
      subst hj
      cases he
      have hm : (w.insertDeposit d).mintsOf w.deposits.nextId = [] := hmints
      rw [hm]
      exact hmatch'.phase
    · exact hb.phase j e he
  · intro j hj
    obtain ⟨e, he, hm, ha⟩ := hb.jobs j hj
    exact ⟨e, World.get_insertDeposit_old he, hm, ha⟩
  · intro tx htx
    obtain ⟨j, e, hj, he⟩ := hb.tagged tx htx
    exact ⟨j, e, hj, World.get_insertDeposit_old he⟩
  · have hpending : (w.insertDeposit d).pendingWei = w.pendingWei +
        w.unmintedWei { d with id := w.deposits.nextId, createdAt := w.now } :=
      w.deposits.sum_insert w.unmintedWei w.now d
    have hafter := hmatch'.unminted hmints
    omega
  · intro j e he hopen
    rw [World.get_insertDeposit] at he
    split at he
    · cases he
      rw [hmatch'.matched] at hopen
      cases hopen
    · exact he
  · exact fun _ _ hv => vouched_insertDeposit hv

end Effects

/-- The sum the cap check reads. -/
def World.inFlightWei (w : World) : Int :=
  ((w.deposits.docs.filter inFlightDeposit).map DepositDoc.amountWei).sum

variable {ι S : Type} {cfg : Config} {f : Faults ι}

/-- Rules under which slot `i` runs the watcher. `listed` is known of the vouts
of a block, `known` of a vout that pays a deposit address; the other assertions
are about the sums of the cap check. -/
structure ScanClient (R : Rules (service cfg f) S) (i : ι) where
  listed : Txid × TxVout → S → Prop
  known : Txid × TxVout → S → Prop
  supplyRead : Int → S → Prop
  inFlightRead : Int → S → Prop
  bothRead : Int → S → Prop
  cleared : Int → S → Prop
  listed_stable : ∀ x, R.Stable i (listed x)
  known_stable : ∀ x, R.Stable i (known x)
  supplyRead_stable : ∀ n, R.Stable i (supplyRead n)
  inFlightRead_stable : ∀ n, R.Stable i (inFlightRead n)
  bothRead_stable : ∀ n, R.Stable i (bothRead n)
  cleared_stable : ∀ n, R.Stable i (cleared n)
  listed_kept : ∀ s t x, R.guar i s t → listed x s → listed x t
  known_kept : ∀ s t x, R.guar i s t → known x s → known x t
  known_listed : ∀ s x, known x s → listed x s
  rest : ∀ s, R.rest i s
  books : ∀ s, R.inv s → DepositBooks (R.world s)
  intents : ∀ s t, R.rely i s t → ∀ id d, (R.world s).deposits.get id = some d →
    d.isOpen = true → (R.world t).deposits.get id = some d
  jobs : ∀ s t, R.rely i s t → ∀ job d, MintJobOf (R.world s) job d →
    ∃ e, MintJobOf (R.world t) job e
  block : ∀ s height b, R.inv s → (R.world s).fair.blockAt height = some b →
    ∀ x ∈ b.vouts, listed x s
  address : ∀ s x a, R.inv s → listed x s → voutAddress x.2 = some a →
    (R.world s).addressCache.contains a = true → known x s
  supplyFirst : ∀ s t, R.inv s → R.inv t →
    R.world t = { R.world s with minedSinceRead := some [] } →
    supplyRead (R.world s).base.totalSupply t
  inFlightSecond : ∀ s supply out, R.inv s →
    f.may i (.deposit (.find inFlightDeposit none) : Op (List DepositDoc)) out
      (R.world s) = true →
    supplyRead supply s → bothRead (supply + (R.world s).inFlightWei) s
  inFlightFirst : ∀ s, R.inv s → inFlightRead (R.world s).inFlightWei s
  supplySecond : ∀ s t inFlight, R.inv s → R.inv t →
    R.world t = { R.world s with minedSinceRead := some [] } → inFlightRead inFlight s →
    bothRead ((R.world s).base.totalSupply + inFlight) t
  clear : ∀ s n maxTvl postFeeWei, cfg.maxTvlFair.toBigInt = .ok maxTvl →
    n + postFeeWei ≤ maxTvl * satsPerFair * satsToWei → bothRead n s → cleared postFeeWei s
  accept : ∀ s w, R.inv s → ScanEffect 0 (R.world s) w →
    ∃ t, R.world t = w ∧ R.inv t ∧ R.guar i s t
  confirm : ∀ s w x postFeeWei, R.inv s → known x s → cleared postFeeWei s →
    applyFee (fairValueToSats x.2.value * satsToWei) cfg.bridgeFeeBps = .ok postFeeWei →
    ¬ (R.world s).vouched x.1 x.2.n → w.vouched x.1 x.2.n →
    ScanEffect postFeeWei (R.world s) w →
    ∃ t, R.world t = w ∧ R.inv t ∧ R.guar i s t

namespace ScanClient
variable {R : Rules (service cfg f) S} {i : ι}

/-- What the watcher knows of a vout and the rows at its address. -/
structure AtVout (C : ScanClient R i) (x : Txid × TxVout) (m : MatchedDeposit) (s : S) :
    Prop where
  known : C.known x s
  amount : m.amountSats = fairValueToSats x.2.value
  intent : ∀ p, m.pending = some p →
    (R.world s).deposits.get p.id = some p ∧ p.isOpen = true

/-- The row's job is about to be added. -/
structure Confirmed (C : ScanClient R i) (x : Txid × TxVout) (id : ObjectId) (n : Int)
    (s : S) : Prop where
  listed : C.listed x s
  job : ∀ job : MintJob, job.depositId = id → job.amountWei = n →
    ∃ d, MintJobOf (R.world s) job d

variable {C : ScanClient R i} {x : Txid × TxVout} {m : MatchedDeposit}

theorem AtVout.stable : R.Stable i (C.AtVout x m) := by
  intro s t hs ht hst h
  refine ⟨C.known_stable x s t hs ht hst h.known, h.amount, ?_⟩
  intro p hp
  obtain ⟨hd, ho⟩ := h.intent p hp
  exact ⟨C.intents s t hst _ p hd ho, ho⟩

theorem Confirmed.stable (id : ObjectId) (n : Int) : R.Stable i (C.Confirmed x id n) := by
  intro s t hs ht hst h
  refine ⟨C.listed_stable x s t hs ht hst h.listed, ?_⟩
  intro job hid hn
  obtain ⟨d, hd⟩ := h.job job hid hn
  exact C.jobs s t hst job d hd

theorem stable_and {A B : S → Prop} (hA : R.Stable i A) (hB : R.Stable i B) :
    R.Stable i fun s => A s ∧ B s :=
  fun s t hs ht hst h => ⟨hA s t hs ht hst h.1, hB s t hs ht hst h.2⟩

/-- The row a vout was put on, before its job is added. -/
theorem confirmed_of_row {t : S} {d : DepositDoc} {n : Int} (hl : C.listed x t)
    (hd : (R.world t).deposits.get d.id = some d) (hm : Matched n d) :
    C.Confirmed x d.id n t := by
  refine ⟨hl, ?_⟩
  intro job hid hn
  refine ⟨d, by rw [hid]; exact hd, hm.matched, ?_⟩
  intro hlive
  cases hm.status with
  | inl hs => rw [hs.2, hn]
  | inr hs => simp [DepositDoc.live, hs.1] at hlive

/-- The intent of a vout is still as it was read. -/
theorem AtVout.unmatched {s : S} {p d : DepositDoc} (h : C.AtVout x m s) (hi : R.inv s)
    (hp : m.pending = some p) (hd : (R.world s).deposits.get p.id = some d) :
    d.isOpen = true ∧ d.fairTxid = none ∧ d.baseMintTxHash = none := by
  obtain ⟨hget, ho⟩ := h.intent p hp
  cases hget.symm.trans hd
  obtain ⟨htxid, hhash, _⟩ := ((C.books s hi).phase _ _ hd).of_open ho
  exact ⟨ho, htxid, hhash⟩

/-- Some reads leave a record, and nothing else. -/
theorem record (C : ScanClient R i) {s : S} (hi : R.inv s) {w : World}
    (he : Elsewhere (R.world s) w) (hd : w.deposits = (R.world s).deposits)
    (hq : w.mintQueue = (R.world s).mintQueue) (ht : w.base.txs = (R.world s).base.txs) :
    ∃ t, R.world t = w ∧ R.inv t ∧ R.guar i s t ∧
      ∀ x m, C.AtVout x m s → C.AtVout x m t := by
  obtain ⟨t, htw, hit, hg⟩ := C.accept s _ hi (.aside (C.books s hi) he hd hq ht)
  refine ⟨t, htw, hit, hg, ?_⟩
  intro x m h
  refine ⟨C.known_kept s t x hg h.known, h.amount, ?_⟩
  rw [htw, hd]
  exact h.intent

theorem performs_address (C : ScanClient R i) {a : String} {vout : Nat × Txid × Nat}
    (ha : voutAddress x.2 = some a) :
    R.Performs i (C.listed x) (.knownDepositAddress a vout)
      (Answered (fun isKnown s => if isKnown = true then C.known x s else C.listed x s)
        (R.rest i)) := by
  refine performs ?_ ?_
  · intro s e hi _ _ _
    exact ⟨s, rfl, hi, R.guar_refl i s, C.rest s⟩
  · intro s y w out hi hs _ hy
    cases hy
    obtain ⟨t, ht, hit, hg, _⟩ := C.record hi (w := (R.world s).lookUp a vout)
      ⟨rfl, rfl, rfl, rfl, rfl, rfl, rfl, rfl, rfl, rfl⟩ rfl rfl rfl
    refine ⟨t, ht, hit, hg, fun _ => ?_, fun _ _ _ => C.rest t⟩
    change if (R.world s).addressCache.contains a = true then C.known x t else C.listed x t
    split
    · rename_i hk
      exact C.known_kept s t x hg (C.address s x a hi hs ha hk)
    · exact C.listed_kept s t x hg hs

theorem performs_intent (C : ScanClient R i) {a : String} :
    R.Performs i (C.known x)
      (.deposit (.findOne (fun d => d.fairAddress == a && d.isOpen) none))
      (Answered (Found (fun p => C.AtVout x ⟨some p, some p, a, fairValueToSats x.2.value⟩)
        (C.known x)) (R.rest i)) := by
  refine Deposit.performs_findOne ?_ (fun _ _ h => h) fun s _ _ => C.rest s
  intro s d _ hs hd hf
  rw [Bool.and_eq_true] at hf
  refine ⟨hs, rfl, ?_⟩
  intro p hp
  cases hp
  exact ⟨Collection.get_of_mem hd, hf.2⟩

theorem performs_earliest (C : ScanClient R i) {a : String} :
    R.Performs i (C.known x)
      (.deposit (.findOne (fun d => d.fairAddress == a) (some DepositDoc.createdAt)))
      (Answered (fun origin => C.AtVout x ⟨none, origin, a, fairValueToSats x.2.value⟩)
        (R.rest i)) := by
  refine performs_read (fun _ => rfl) ?_ ?_ fun s _ _ _ => C.rest s
  · intro w y w' hy
    cases hy
    rfl
  · intro s y _ hs hy
    cases hy
    refine ⟨hs, rfl, ?_⟩
    intro p hp
    cases hp

variable {v : ScannedVout}

/-- A vout that has a row is left alone. -/
theorem performs_already (C : ScanClient R i) (m : MatchedDeposit) :
    R.Performs i (C.AtVout (v.txid, v.vout) m)
      (.deposit (.findOne (fun d => d.fairTxid == some v.txid && d.fairVout == some v.vout.n) none))
      (Answered (Found (fun _ => C.listed (v.txid, v.vout)) (C.AtVout (v.txid, v.vout) m))
        (R.rest i)) :=
  Deposit.performs_findOne (fun s _ _ hs _ _ => C.known_listed s _ hs.known)
    (fun _ _ h => h) fun s _ _ => C.rest s

/-- The intent of the vout is refused. -/
theorem performs_refuseIntent (C : ScanClient R i) {p : DepositDoc} (hp : m.pending = some p)
    (amountSats amountWei : Int) :
    R.Performs i (C.AtVout (v.txid, v.vout) m)
      (.deposit (.updateOne (fun d => d.id == p.id && true)
        (v.set .failed amountSats amountWei)))
      (Answered (fun _ => C.listed (v.txid, v.vout)) (R.rest i)) := by
  refine Deposit.performs_setVoutById rfl rfl ?_ ?_
    (fun s _ hs _ => C.known_listed s _ hs.known) fun s _ _ => C.rest s
  · intro s d hi hs hd
    exact (hs.unmatched hi hp hd).2.1
  · intro s d hi hs hd _
    obtain ⟨ho, _, hhash⟩ := hs.unmatched hi hp hd
    have hmatch : Matched 0 ((v.set .failed amountSats amountWei).apply d) :=
      ⟨Or.inr ⟨rfl, rfl⟩, hhash⟩
    obtain ⟨t, ht, hit, hg⟩ := C.accept s _ hi (.update (C.books s hi) hd ho hmatch)
    exact ⟨t, ht, hit, hg, C.listed_kept s t _ hg (C.known_listed s _ hs.known), C.rest t⟩

/-- The vout has no intent and is refused. -/
theorem performs_refuseNew (C : ScanClient R i) (baseAddress : Address) (hdIndex : Int)
    (fairAddress : String) (amountSats amountWei : Int) :
    R.Performs i (C.AtVout (v.txid, v.vout) m)
      (.deposit (.create (v.row .failed baseAddress hdIndex fairAddress amountSats amountWei)))
      (Answered (fun _ => C.listed (v.txid, v.vout)) (R.rest i)) := by
  refine Deposit.performs_create ?_ fun s _ _ => C.rest s
  intro s hi hs _
  have hmatch : Matched 0
      (v.row .failed baseAddress hdIndex fairAddress amountSats amountWei) :=
    ⟨Or.inr ⟨rfl, rfl⟩, rfl⟩
  obtain ⟨t, ht, hit, hg⟩ := C.accept s _ hi (.insert (C.books s hi) hmatch)
  exact ⟨t, ht, hit, hg, C.listed_kept s t _ hg (C.known_listed s _ hs.known), C.rest t⟩

theorem performs_served (C : ScanClient R i) :
    R.Performs i (C.AtVout x m) .firstServed
      (Answered (fun _ => C.AtVout x m) (R.rest i)) := by
  refine performs ?_ ?_
  · intro s e hi _ _ _
    exact ⟨s, rfl, hi, R.guar_refl i s, C.rest s⟩
  · intro s y w out hi hs _ hy
    cases hy
    obtain ⟨t, ht, hit, hg, hat⟩ := C.record hi (w := { R.world s with minedSinceRead := none })
      ⟨rfl, rfl, rfl, rfl, rfl, rfl, rfl, rfl, rfl, rfl⟩ rfl rfl rfl
    exact ⟨t, ht, hit, hg, fun _ => hat x m hs, fun _ _ _ => C.rest t⟩

/-- The supply is read; `M` is what is known then. -/
theorem performs_supply (C : ScanClient R i) {P : S → Prop} {M : Int → S → Prop}
    (hP : ∀ s, P s → C.AtVout x m s)
    (h : ∀ s t, R.inv s → R.inv t → P s →
      R.world t = { R.world s with minedSinceRead := some [] } →
      M (R.world s).base.totalSupply t) :
    R.Performs i P .totalSupply
      (Answered (fun n s => C.AtVout x m s ∧ M n s) (R.rest i)) := by
  refine performs ?_ ?_
  · intro s e hi _ _ _
    exact ⟨s, rfl, hi, R.guar_refl i s, C.rest s⟩
  · intro s y w out hi hs _ hy
    cases hy
    obtain ⟨t, ht, hit, hg, hat⟩ := C.record hi
      (w := { R.world s with minedSinceRead := some [] })
      ⟨rfl, rfl, rfl, rfl, rfl, rfl, rfl, rfl, rfl, rfl⟩ rfl rfl rfl
    exact ⟨t, ht, hit, hg, fun _ => ⟨hat x m (hP s hs), h s t hi hit hs ht⟩,
      fun _ _ _ => C.rest t⟩

/-- The intent of the vout is confirmed. -/
theorem performs_confirmIntent (C : ScanClient R i) {p : DepositDoc} {postFeeWei : Int}
    (hp : m.pending = some p)
    (hfee : applyFee (m.amountSats * satsToWei) cfg.bridgeFeeBps = .ok postFeeWei) :
    R.Performs i (fun s => C.AtVout (v.txid, v.vout) m s ∧ C.cleared postFeeWei s)
      (.deposit (.findOneAndUpdate (fun d => d.id == p.id && d.isOpen) none
        (v.set .confirmed m.amountSats postFeeWei)))
      (Answered (Found (fun d => C.Confirmed (v.txid, v.vout) d.id postFeeWei)
        (C.listed (v.txid, v.vout))) (R.rest i)) := by
  refine Deposit.performs_setVout rfl rfl ?_ ?_
    (fun s _ hs _ => C.known_listed s _ hs.1.known) fun s _ _ => C.rest s
  · intro s d hi hs hd
    exact (hs.1.unmatched hi hp hd).2.1
  · intro s d hi hs hd ho hnew
    obtain ⟨_, _, hhash⟩ := hs.1.unmatched hi hp hd
    have hmatch : Matched postFeeWei ((v.set .confirmed m.amountSats postFeeWei).apply d) :=
      ⟨Or.inl ⟨rfl, rfl⟩, hhash⟩
    have hrow := World.get_setDeposit hd (v.set .confirmed m.amountSats postFeeWei)
    obtain ⟨t, ht, hit, hg⟩ := C.confirm s _ (v.txid, v.vout) postFeeWei hi hs.1.known hs.2
      (hs.1.amount ▸ hfee) (not_vouched hnew)
      ⟨_, Collection.get_mem hrow, rfl, rfl⟩ (.update (C.books s hi) hd ho hmatch)
    refine ⟨t, ht, hit, hg, confirmed_of_row ?_ ?_ hmatch, C.rest t⟩
    · exact C.listed_kept s t _ hg (C.known_listed s _ hs.1.known)
    · have hid : d.id = p.id := Collection.get_id hd
      rw [ht, show ((v.set .confirmed m.amountSats postFeeWei).apply d).id = p.id from hid]
      exact hrow

/-- The vout has no intent and gets a row of its own. -/
theorem performs_confirmNew (C : ScanClient R i) {postFeeWei : Int}
    (hfee : applyFee (m.amountSats * satsToWei) cfg.bridgeFeeBps = .ok postFeeWei)
    (baseAddress : Address) (hdIndex : Int) :
    R.Performs i (fun s => C.AtVout (v.txid, v.vout) m s ∧ C.cleared postFeeWei s)
      (.deposit (.create (v.row .confirmed baseAddress hdIndex m.fairAddress m.amountSats
        postFeeWei)))
      (Created (fun d => C.Confirmed (v.txid, v.vout) d.id postFeeWei)
        (C.listed (v.txid, v.vout)) (R.rest i)) := by
  refine Performs.post (M := Answered (fun d => C.Confirmed (v.txid, v.vout) d.id postFeeWei)
    (C.listed (v.txid, v.vout))) ?_ ?_
  swap
  · intro r s _ h
    cases r with
    | ok d => exact h
    | error e => exact ⟨C.rest s, fun _ => h⟩
  refine Deposit.performs_create ?_ fun s _ hs => C.known_listed s _ hs.1.known
  intro s hi hs hnew
  have hmatch : Matched postFeeWei
      (v.row .confirmed baseAddress hdIndex m.fairAddress m.amountSats postFeeWei) :=
    ⟨Or.inl ⟨rfl, rfl⟩, rfl⟩
  have hrow := World.get_insertDeposit_new (R.world s)
    (v.row .confirmed baseAddress hdIndex m.fairAddress m.amountSats postFeeWei)
  obtain ⟨t, ht, hit, hg⟩ := C.confirm s _ (v.txid, v.vout) postFeeWei hi hs.1.known hs.2
    (hs.1.amount ▸ hfee) (not_vouched hnew)
    ⟨_, Collection.get_mem hrow, rfl, rfl⟩ (.insert (C.books s hi) hmatch)
  have hl := C.listed_kept s t _ hg (C.known_listed s _ hs.1.known)
  refine ⟨t, ht, hit, hg, confirmed_of_row hl ?_ ⟨hmatch.status, hmatch.hash⟩, hl⟩
  rw [ht]
  exact hrow

theorem performs_enqueue (C : ScanClient R i) (job : MintJob) :
    R.Performs i (C.Confirmed x job.depositId job.amountWei) (.addMintJob job)
      (Answered (fun _ => C.listed x) (R.rest i)) := by
  refine Deposit.performs_addMintJob ?_ fun s _ _ => C.rest s
  intro s hi hs
  obtain ⟨d, hd⟩ := hs.job job rfl rfl
  obtain ⟨t, ht, hit, hg⟩ := C.accept s _ hi (.enqueue (C.books s hi) hd)
  exact ⟨t, ht, hit, hg, C.listed_kept s t _ hg hs.listed, C.rest t⟩

/-- The scan of one vout of a block. -/
def outline (C : ScanClient R i) (v : ScannedVout) : VoutOutline R i cfg v where
  base := C.listed (v.txid, v.vout)
  done := C.listed (v.txid, v.vout)
  known _ := C.known (v.txid, v.vout)
  matched m := C.AtVout (v.txid, v.vout) m
  clocked m _ := C.AtVout (v.txid, v.vout) m
  summed m _ := C.AtVout (v.txid, v.vout) m
  within m := C.AtVout (v.txid, v.vout) m
  supplyRead m n s := C.AtVout (v.txid, v.vout) m s ∧ C.supplyRead n s
  inFlightRead m n s := C.AtVout (v.txid, v.vout) m s ∧ C.inFlightRead n s
  bothRead m n s := C.AtVout (v.txid, v.vout) m s ∧ C.bothRead n s
  cleared m n s := C.AtVout (v.txid, v.vout) m s ∧ C.cleared n s
  confirmed _ := C.Confirmed (v.txid, v.vout)
  base_stable := C.listed_stable _
  done_stable := C.listed_stable _
  known_stable _ := C.known_stable _
  matched_stable _ := AtVout.stable
  clocked_stable _ _ := AtVout.stable
  summed_stable _ _ := AtVout.stable
  within_stable _ := AtVout.stable
  supplyRead_stable _ n := stable_and AtVout.stable (C.supplyRead_stable n)
  inFlightRead_stable _ n := stable_and AtVout.stable (C.inFlightRead_stable n)
  bothRead_stable _ n := stable_and AtVout.stable (C.bothRead_stable n)
  cleared_stable _ n := stable_and AtVout.stable (C.cleared_stable n)
  confirmed_stable _ := Confirmed.stable
  base_rest s _ _ := C.rest s
  done_rest s _ _ := C.rest s
  known_rest _ s _ _ := C.rest s
  matched_rest _ s _ _ := C.rest s
  clocked_rest _ _ s _ _ := C.rest s
  summed_matched _ _ _ _ h := h
  within_rest _ s _ _ := C.rest s
  supplyRead_rest _ _ s _ _ := C.rest s
  inFlightRead_rest _ _ s _ _ := C.rest s
  bothRead_matched _ _ _ _ h := h.1
  cleared_rest _ _ s _ _ := C.rest s
  confirmed_rest _ _ _ s _ _ := C.rest s
  unaddressed _ _ _ h := h
  address _ ha := C.performs_address ha
  intent _ _ := C.performs_intent
  earliest _ _ := C.performs_earliest
  already m := C.performs_already m
  unsolicited _ _ := C.performs_refuseNew _ _ _ _ _
  refuseIntent _ _ hp := C.performs_refuseIntent hp _ _
  refuseNew _ _ _ _ := C.performs_refuseNew _ _ _ _ _
  clock _ := performs_dateNow
  daily _ _ _ _ := performs_idle (fun _ => rfl)
    (fun _ _ _ hx => by cases hx; rfl) fun s _ _ => C.rest s
  room _ _ _ _ _ _ _ h := h
  served _ := C.performs_served
  supplyFirst _ := C.performs_supply (fun _ h => h)
    fun s t hi hit _ ht => C.supplyFirst s t hi hit ht
  inFlightSecond _ supply := Deposit.performs_findAll
    (fun s out hi hs hmay => ⟨hs.1, C.inFlightSecond s supply out hi hmay hs.2⟩)
    fun s _ _ => C.rest s
  inFlightFirst _ := Deposit.performs_findAll
    (fun s _ hi hs _ => ⟨hs, C.inFlightFirst s hi⟩) fun s _ _ => C.rest s
  supplySecond _ inFlight := C.performs_supply (fun _ h => h.1)
    fun s t hi hit hs ht => C.supplySecond s t inFlight hi hit ht hs.2
  clear _ n maxTvl postFeeWei s _ hcap hroom h :=
    ⟨h.1, C.clear s n maxTvl postFeeWei hcap hroom h.2⟩
  confirmIntent _ _ _ hp hfee := C.performs_confirmIntent hp hfee
  confirmNew _ _ _ _ _ hfee := C.performs_confirmNew hfee _ _
  enqueue _ id origin postFeeWei _ := C.performs_enqueue (v.job id origin postFeeWei)
  notify _ := performs_webhook fun _ _ h => h

theorem processBlock (C : ScanClient R i) (height tip : Nat) :
    R.Triple i (R.rest i) (FairBridge.processBlock cfg height tip) (fun _ => R.rest i)
      (fun _ => R.rest i) := by
  have hleft : ∀ vouts : List (Txid × TxVout), R.Stable i fun s => ∀ x ∈ vouts, C.listed x s :=
    fun vouts s t hs ht hst h x hx => C.listed_stable x s t hs ht hst (h x hx)
  refine Triple.weaken (processBlock_chain (R.rest i)
    (fun _ vouts s => ∀ x ∈ vouts, C.listed x s) .rest (fun _ _ h => h)
    (fun _ => hleft) ?_ ?_) (fun _ _ h => h) (fun _ s _ _ => C.rest s) fun _ _ _ h => h
  · refine performs_read (fun _ => rfl) ?_ ?_ fun s _ _ _ => C.rest s
    · intro w y w' hy
      simp only [effect] at hy
      split at hy <;> cases hy <;> rfl
    · intro s y hi _ hy
      simp only [effect] at hy
      split at hy <;> cases hy
      · rename_i b hb
        exact C.block s height b hi hb
      · exact C.rest s
  · intro b x vouts
    refine ((C.outline ⟨x.1, x.2, height, tip⟩).processVout.frame (hleft vouts) ?_).weaken
      ?_ (fun _ _ _ h => h.2) fun _ _ _ h => h
    · exact fun s t _ _ hg h y hy => C.listed_kept s t y hg (h y hy)
    · exact fun s _ h => ⟨h x List.mem_cons_self, fun y hy => h y (List.mem_cons_of_mem x hy)⟩

end ScanClient
end FairBridge

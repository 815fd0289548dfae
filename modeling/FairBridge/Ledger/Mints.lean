import FairBridge.Ledger.Deposits
import FairBridge.Signer.MintOutline

/-!
The mint signer as a client of the books. Any rules that accept its effects on
the books can run it: its outline is the same for all of them.
-/

namespace FairBridge
open Store Async Async.Rules

/-- A broadcast that raises has no effect, and the update that files its hash
does reach the store. -/
def mintMay {β : Type} (op : Op β) (out : Outcome) : Bool :=
  match op with
  | .writeContract _ => !out.isLost
  | op => !(op.filesMintHash && out.isFail)

variable {ι S : Type} {cfg : Config} {f : Faults ι}

/-- Rules under which slot `i` runs the mint signer for row `id`. -/
structure MintClient (R : Rules (service cfg f) S) (i : ι) (id : ObjectId) : Prop where
  row : f.row i = some id
  may : ∀ {β : Type} (op : Op β) out w, f.may i op out w = true → mintMay op out = true
  mayKill : ∀ {β : Type} (op : Op β) w, f.mayKill i op w = true → op.filesMintHash = false
  books : ∀ s, R.inv s → DepositBooks (R.world s)
  rest : ∀ s, R.rest i s ↔ MintRest id (R.world s)
  rely : ∀ s t, R.rely i s t → RowUndisturbed id (R.world s) (R.world t)
  accept : ∀ s w, R.inv s → MintEffect id (R.world s) w →
    ∃ t, R.world t = w ∧ R.inv t ∧ R.guar i s t

/-- What a run knows of its row before it broadcasts. -/
structure MintRow (job : MintJob) (d : DepositDoc) (w : World) : Prop extends
    MintJobOf w job d where
  rest : MintRest job.depositId w

/-- The row's transaction is broadcast and not on file. -/
structure MintSent (job : MintJob) (h : Hash) (w : World) : Prop where
  row : ∃ d tx, w.deposits.get job.depositId = some d ∧ d.status = .minting ∧
    d.baseMintTxHash = none ∧ w.mintsOf job.depositId = [tx] ∧ tx.hash = h

/-- The row's transaction is on file. -/
structure MintFiled (job : MintJob) (h : Hash) (w : World) : Prop where
  row : ∃ d tx, w.deposits.get job.depositId = some d ∧ d.status = .minting ∧
    d.baseMintTxHash = some h ∧ w.mintsOf job.depositId = [tx] ∧ tx.hash = h

section Assertions
variable {job : MintJob} {d : DepositDoc} {h : Hash} {w w' : World}

theorem MintRow.later (hb : DepositBooks w) (hw : RowUndisturbed job.depositId w w')
    (hr : MintRow job d w) : MintRow job d w' :=
  ⟨⟨hw.row d hr.row hr.matched, hr.matched, hr.amount⟩, hr.rest.later hb hw⟩

theorem isOpen_of_minting (hst : d.status = .minting) : d.isOpen = false :=
  DepositDoc.isOpen_of_live (DepositDoc.live_iff.mpr (Or.inr hst))

theorem MintSent.later (hw : RowUndisturbed job.depositId w w') (hs : MintSent job h w) :
    MintSent job h w' := by
  obtain ⟨d, tx, hd, hst, hn, hm, hh⟩ := hs.row
  exact ⟨d, tx, hw.row d hd (isOpen_of_minting hst), hst, hn, hw.mints.trans hm, hh⟩

theorem MintFiled.later (hw : RowUndisturbed job.depositId w w') (hs : MintFiled job h w) :
    MintFiled job h w' := by
  obtain ⟨d, tx, hd, hst, hn, hm, hh⟩ := hs.row
  exact ⟨d, tx, hw.row d hd (isOpen_of_minting hst), hst, hn, hw.mints.trans hm, hh⟩

theorem MintFiled.rest (hs : MintFiled job h w) : MintRest job.depositId w := by
  obtain ⟨d, _, hd, _, hh, _⟩ := hs.row
  intro e he hn
  cases hd.symm.trans he
  rw [hh] at hn
  cases hn

theorem mintArgs_amount {args : MintCall} (ha : mintArgs job = .ok args) :
    args.amount = job.amountWei := by
  rw [mintArgs] at ha
  cases ht : fairTxidToBytes32 job.fairTxid with
  | error e =>
      rw [ht] at ha
      cases ha
  | ok t =>
      rw [ht] at ha
      cases ha
      rfl

end Assertions

namespace MintClient
variable {R : Rules (service cfg f) S} {i : ι} {job : MintJob}

/-- A step that has to do with neither deposits nor mints. -/
theorem aside (C : MintClient R i job.depositId) {s : S} {w : World} (hi : R.inv s)
    (hr : R.rest i s) (hw : SameBooks (R.world s) w) :
    ∃ t, R.world t = w ∧ R.inv t ∧ R.guar i s t ∧ R.rest i t := by
  have hb := C.books s hi
  have heff : MintEffect job.depositId (R.world s) w := by
    refine .aside hb ⟨hw.withdrawals, hw.releaseQueue, ?_, ?_, ?_, ?_, ?_, ?_, ?_,
      hw.addressCache⟩ hw.minedSinceRead hw.deposits hw.mintQueue ?_
    all_goals simp only [hw.base, hw.fair]
  obtain ⟨t, ht, hit, hg⟩ := C.accept s w hi heff
  refine ⟨t, ht, hit, hg, ?_⟩
  rw [C.rest] at hr ⊢
  rw [ht]
  intro d hd hn
  have hmints : w.mintsOf job.depositId = (R.world s).mintsOf job.depositId := by
    rw [World.mintsOf, hw.base, World.mintsOf]
  rw [hmints]
  exact hr d (hw.deposits ▸ hd) hn

theorem read (C : MintClient R i job.depositId) {P : S → Prop}
    (hP : ∀ s, P s → ∃ d, MintRow job d (R.world s)) :
    R.Performs i P (.deposit (.findOne (fun d => d.id == job.depositId) none))
      (Answered (Found (fun d s => MintRow job d (R.world s)) (R.rest i)) (R.rest i)) := by
  refine Deposit.performs_findById ?_ ?_
  · intro s _ hs
    obtain ⟨d, hd⟩ := hP s hs
    rw [hd.row]
    exact hd
  · intro s _ hs
    obtain ⟨d, hd⟩ := hP s hs
    exact (C.rest s).mpr hd.rest

theorem claim (C : MintClient R i job.depositId) (d : DepositDoc) :
    R.Performs i (fun s => MintRow job d (R.world s))
      (.deposit (.findOneAndUpdate (fun d => d.id == job.depositId && claimable d) none
        { status := some .minting }))
      (Answered (Found (fun d s => MintRow job d (R.world s))
        fun s => ∃ d, MintRow job d (R.world s)) (R.rest i)) := by
  refine Deposit.performs_claimMint ?_ (fun s _ hs _ => ⟨d, hs⟩)
    fun s _ hs => (C.rest s).mpr hs.rest
  intro s e out hi hs he hc _
  cases hs.row.symm.trans he
  have hlive : d.live = true ∧ d.baseMintTxHash = none := by
    simp only [claimable, Bool.and_eq_true, beq_iff_eq] at hc
    exact ⟨hc.1.1, hc.1.2⟩
  have hmints := hs.rest d he hlive.2
  have heff := MintEffect.claim (C.books s hi) he hc hmints
  obtain ⟨t, ht, hit, hg⟩ := C.accept s _ hi heff
  have hrow := World.get_setDeposit he { status := some .minting }
  have hrest : MintRest job.depositId (R.world t) := by
    rw [ht]
    exact fun _ _ _ => hmints
  refine ⟨t, ht, hit, hg, ?_, (C.rest t).mpr hrest⟩
  refine ⟨⟨?_, rfl, fun _ => hs.amount hlive.1⟩, hrest⟩
  rw [ht]
  exact hrow

theorem broadcast (C : MintClient R i job.depositId) {d : DepositDoc} {args : MintCall}
    (hst : d.status = .minting) (hnone : d.baseMintTxHash = none)
    (hargs : mintArgs job = .ok args) :
    R.Performs i (fun s => MintRow job d (R.world s)) (.writeContract args)
      (Answered (fun h s => MintSent job h (R.world s)) (R.rest i)) := by
  have hlive : d.live = true := DepositDoc.live_iff.mpr (Or.inr hst)
  have hcalled : ∀ s, R.inv s → MintEffect job.depositId (R.world s)
      (recordCall (.writeContract args) (R.world s)) := by
    intro s hi
    exact .aside (C.books s hi) ⟨rfl, rfl, rfl, rfl, rfl, rfl, rfl, rfl, rfl, rfl⟩ rfl rfl rfl rfl
  have hraised : ∀ s, R.inv s → MintRow job d (R.world s) →
      ∃ t, R.world t = recordCall (.writeContract args) (R.world s) ∧ R.inv t ∧
        R.guar i s t ∧ R.rest i t := by
    intro s hi hs
    obtain ⟨t, ht, hit, hg⟩ := C.accept s _ hi (hcalled s hi)
    refine ⟨t, ht, hit, hg, (C.rest t).mpr ?_⟩
    rw [ht]
    exact hs.rest
  refine performs (fun s e hi hs _ _ => hraised s hi hs) ?_
  intro s x w out hi hs hmay hx
  cases effect_writeContract hx with
  | inl h =>
      obtain ⟨e, rfl, rfl⟩ := h
      obtain ⟨t, ht, hit, hg, hrest⟩ := hraised s hi hs
      exact ⟨t, ht, hit, hg, fun _ => hrest, fun _ _ _ => hrest⟩
  | inr h =>
      obtain ⟨rfl, rfl, hfresh⟩ := h
      have hpos := MintCall.nonneg (encodable_of_effect hx)
      have hmints := hs.rest d hs.row hnone
      have hamount : args.amount = d.amountWei :=
        (mintArgs_amount hargs).trans (hs.amount hlive).symm
      have heff := (hcalled s hi).trans
        (.broadcast (hcalled s hi).books hs.row hst hnone hmints hamount hpos hfresh)
      rw [C.row]
      obtain ⟨t, ht, hit, hg⟩ := C.accept s _ hi heff
      refine ⟨t, ht, hit, hg, ?_, ?_⟩
      · intro _
        refine ⟨d, ⟨_, args, some job.depositId⟩, ?_, hst, hnone, ?_, rfl⟩
        · rw [ht]
          exact hs.row
        · rw [ht, World.mintsOf_broadcast, if_pos rfl]
          exact congrArg (· ++ _) hmints
      · intro e he _
        have hm := C.may _ _ _ hmay
        rw [he] at hm
        cases hm

theorem persist (C : MintClient R i job.depositId) (h : Hash) :
    R.Performs i (fun s => MintSent job h (R.world s))
      (.deposit (.updateOne (fun d => d.id == job.depositId && true)
        { baseMintTxHash := some h }))
      (Answered (fun _ s => MintFiled job h (R.world s)) (R.rest i)) := by
  refine Deposit.performs_updateById rfl rfl ?_ ?_
  · intro s hi hs
    obtain ⟨d, tx, hd, hst, _, hm, rfl⟩ := hs.row
    obtain ⟨t, ht, hit, hg⟩ := C.accept s _ hi (.file (C.books s hi) hd hst hm)
    have hfiled : MintFiled job tx.hash (R.world t) := by
      refine ⟨({ baseMintTxHash := some tx.hash } : DepositSet).apply d, tx, ?_, hst, rfl, ?_,
        rfl⟩
      · rw [ht]
        exact World.get_setDeposit hd { baseMintTxHash := some tx.hash }
      · rw [ht]
        exact hm
    exact ⟨t, ht, hit, hg, hfiled, (C.rest t).mpr hfiled.rest⟩
  · intro s e _ _ hmay
    cases C.may _ _ _ hmay

/-- The update that settles the row, as its receipt says. -/
theorem settle (C : MintClient R i job.depositId) (h : Hash) (r : Receipt) {u : DepositSet}
    (hu : u.status = some (if r.success then .minted else .failed))
    (hamount : u.amountWei = none) (htxid : u.fairTxid = none) (hvout : u.fairVout = none)
    (hkeep : u.baseMintTxHash = none) :
    R.Performs i
      (fun s => MintFiled job h (R.world s) ∧ (R.world s).base.receipts h = some r)
      (.deposit (.updateOne (fun d => d.id == job.depositId && true) u))
      (Answered (fun _ => R.rest i) (R.rest i)) := by
  refine Deposit.performs_updateById htxid hvout ?_ fun s _ _ hs _ => (C.rest s).mpr hs.1.rest
  intro s hi hs
  obtain ⟨⟨d, tx, hd, hst, hh, hm, rfl⟩, hr⟩ := hs
  obtain ⟨t, ht, hit, hg⟩ := C.accept s _ hi
    (.settle (C.books s hi) hd hst hm hh hr hu hamount htxid hvout hkeep)
  have hrest : R.rest i t := by
    rw [C.rest, ht]
    intro e he hn
    cases (World.get_setDeposit hd u).symm.trans he
    simp [DepositSet.apply, hkeep, hh] at hn
  exact ⟨t, ht, hit, hg, hrest, hrest⟩

end MintClient

/-- A run of the signer for a job of the row. -/
def MintClient.outline {R : Rules (service cfg f) S} {i : ι} {job : MintJob}
    (C : MintClient R i job.depositId) : MintOutline R i job where
  start s := ∃ d, MintRow job d (R.world s)
  seen d s := MintRow job d (R.world s)
  refused s := ∃ d, MintRow job d (R.world s)
  held d s := MintRow job d (R.world s)
  sent h s := MintSent job h (R.world s)
  filed h s := MintFiled job h (R.world s)
  mined h r s := MintFiled job h (R.world s) ∧ (R.world s).base.receipts h = some r
  start_stable s t hs _ hst h := by
    obtain ⟨d, hd⟩ := h
    exact ⟨d, hd.later (C.books s hs) (C.rely s t hst)⟩
  seen_stable _ s t hs _ hst h := h.later (C.books s hs) (C.rely s t hst)
  refused_stable s t hs _ hst h := by
    obtain ⟨d, hd⟩ := h
    exact ⟨d, hd.later (C.books s hs) (C.rely s t hst)⟩
  held_stable _ s t hs _ hst h := h.later (C.books s hs) (C.rely s t hst)
  sent_stable _ s t _ _ hst h := h.later (C.rely s t hst)
  filed_stable _ s t _ _ hst h := h.later (C.rely s t hst)
  mined_stable _ _ s t _ _ hst h :=
    ⟨h.1.later (C.rely s t hst), (C.rely s t hst).receipts _ _ h.2⟩
  start_rest s _ h := by
    obtain ⟨d, hd⟩ := h
    exact (C.rest s).mpr hd.rest
  seen_rest _ s _ h := (C.rest s).mpr h.rest
  refused_rest s _ h := by
    obtain ⟨d, hd⟩ := h
    exact (C.rest s).mpr hd.rest
  held_rest _ s _ h := (C.rest s).mpr h.rest
  filed_rest _ s _ h := (C.rest s).mpr h.rest
  mined_rest _ _ s _ h := (C.rest s).mpr h.1.rest
  held_id _ _ _ h := Collection.get_id h.row
  resume _ _ _ h _ := h
  reconcile d h s hi hs hst hh := by
    have hlive : d.live = true := DepositDoc.live_iff.mpr (Or.inr hst)
    cases ((C.books s hi).phase _ d hs.row).of_live hlive with
    | inl hn =>
        rw [hh] at hn
        cases hn.1
    | inr hn =>
        obtain ⟨_, tx, hm, _, _, hx⟩ := hn
        rw [hh] at hx
        cases hx with
        | inl hx => cases hx
        | inr hx => exact ⟨d, tx, hs.row, hst, hh, hm, (Option.some.inj hx).symm⟩
  read := C.read fun _ h => h
  claim d _ := C.claim d
  reread := C.read fun _ h => h
  broadcast _ _ hst hn ha := C.broadcast hst hn ha
  sent_settled _ _ _ _ hkill := by
    simp only [service, Bool.and_eq_true] at hkill
    cases C.mayKill _ _ hkill.2
  persist := C.persist
  receipt h := performs_waitForTransactionReceipt (fun s r _ hs hr => ⟨hs, hr⟩)
    fun s _ hs => (C.rest s).mpr hs.rest
  settle h r hr := C.settle h r (by rw [hr]; rfl) rfl rfl rfl rfl
  revert h r hr := C.settle h r (by rw [hr]; rfl) rfl rfl rfl rfl
  notify _ := performs_webhook fun _ _ h => h
  record _ := performs_auditLog fun _ _ hi hs hw => C.aside hi hs hw

end FairBridge

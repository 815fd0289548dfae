import FairBridge.Model.Frame
import FairBridge.Guarantees.BuyOrders
import FairBridge.Guarantees.BuybackShares
import FairBridge.Guarantees.SwapProceeds

/-!
Whole runs of the buy-back worker. At most one cycle is open. Each cycle swaps at most once and
burns each share at most once, and when it is complete everything it sent has landed and the
three shares have gone to their destinations.
-/

namespace FairBridge
open Store Async Async.Rules

/-- What a cycle sends: its swap, and the burns of its shares. -/
inductive CycleLeg where
  | swap
  | burn (label : BurnLabel)
  deriving DecidableEq, Repr

namespace CycleLeg

def hash : CycleLeg → BuybackCycleDoc → Option Hash
  | .swap, d => d.swapTxHash
  | .burn label, d => d.txHash label

def purpose (id : ObjectId) : CycleLeg → Purpose
  | .swap => .cycleSwap id
  | .burn label => .cycleBurn id label

/-- The update that puts the hash of the leg on its cycle. -/
def file : CycleLeg → Hash → BuybackCycleSet
  | .swap, h => { swapTxHash := some h }
  | .burn label, h => label.file h

theorem purpose_inj {i j : ObjectId} {a b : CycleLeg} (h : a.purpose i = b.purpose j) :
    i = j ∧ a = b := by
  cases a <;> cases b <;> cases h <;> exact ⟨rfl, rfl⟩

theorem purpose_ne_setup (leg : CycleLeg) (id : ObjectId) : Purpose.setup ≠ leg.purpose id := by
  cases leg <;> rintro ⟨⟩

theorem hash_file (leg : CycleLeg) (h : Hash) (d : BuybackCycleDoc) :
    leg.hash ((leg.file h).apply d) = some h := by
  cases leg with
  | swap => rfl
  | burn label => cases label <;> rfl

/-- The filing of a hash is told apart from every other request. -/
theorem files_file (leg : CycleLeg) (h : Hash) :
    ((leg.file h).swapTxHash.isSome || (leg.file h).burnTxHash.isSome ||
      (leg.file h).treasuryTxHash.isSome || (leg.file h).masternodeTxHash.isSome) = true := by
  cases leg with
  | swap => rfl
  | burn label => cases label <;> rfl

/-- An update that files no hash leaves them all as they are. -/
theorem hash_apply (leg : CycleLeg) {u : BuybackCycleSet}
    (hu : (u.swapTxHash.isSome || u.burnTxHash.isSome || u.treasuryTxHash.isSome ||
      u.masternodeTxHash.isSome) = false) (d : BuybackCycleDoc) :
    leg.hash (u.apply d) = leg.hash d := by
  simp only [Bool.or_eq_false_iff, Option.isSome_eq_false_iff, Option.isNone_iff_eq_none] at hu
  obtain ⟨⟨⟨hswap, hburn⟩, htreasury⟩, hmasternode⟩ := hu
  cases leg with
  | swap => simp [hash, BuybackCycleSet.apply, hswap]
  | burn label =>
      cases label <;>
        simp [hash, BuybackCycleDoc.txHash, BuybackCycleSet.apply, hburn, htreasury, hmasternode]

theorem hash_record (leg : CycleLeg) (label : BurnLabel) (n : Int) (d : BuybackCycleDoc) :
    leg.hash ((label.record n).apply d) = leg.hash d :=
  leg.hash_apply (by cases label <;> rfl) d

theorem isOpen_file (leg : CycleLeg) (h : Hash) (d : BuybackCycleDoc) :
    ((leg.file h).apply d).isOpen = d.isOpen := by
  cases leg with
  | swap => rfl
  | burn label => cases label <;> rfl

theorem acquired_file (leg : CycleLeg) (h : Hash) (d : BuybackCycleDoc) :
    ((leg.file h).apply d).wfairAcquiredWei = d.wfairAcquiredWei := by
  cases leg with
  | swap => rfl
  | burn label => cases label <;> rfl

theorem hash_file_other {leg other : CycleLeg} (hne : other ≠ leg) (h : Hash)
    (d : BuybackCycleDoc) : other.hash ((leg.file h).apply d) = other.hash d := by
  cases leg with
  | swap =>
      cases other with
      | swap => exact absurd rfl hne
      | burn label => cases label <;> rfl
  | burn label =>
      cases other with
      | swap => cases label <;> rfl
      | burn other =>
          cases label <;> cases other <;> first | exact absurd rfl hne | rfl

end CycleLeg

/-- The update that puts the hash of a leg on a cycle. -/
def Op.filesCycleHash {β : Type} : Op β → Bool
  | .buybackCycle (.updateOne _ u) => u.swapTxHash.isSome || u.burnTxHash.isSome ||
      u.treasuryTxHash.isSome || u.masternodeTxHash.isSome
  | _ => false

/-- The buy-back worker alone. It may die, and its requests may raise with or without effect,
anywhere but between a broadcast and the filing of its hash. -/
def buybackRuns : Faults Unit where
  ready _ _ t := match t with
    | .runOneCycle => true
    | _ => false
  may _ op out _ := match op with
    | .sendWallet _ _ purpose => purpose == .setup || !out.isLost
    | op => !op.filesCycleHash || !out.isFail
  mayKill _ op _ := !op.filesCycleHash
  row _ := none

variable {cfg : Config} {w w' : World}

/-- The leg is on file and mined. -/
def World.landed (w : World) (d : BuybackCycleDoc) (leg : CycleLeg) : Prop :=
  ∃ h, leg.hash d = some h ∧ w.succeeded h

/-- What is true of a cycle whatever happens to the worker. -/
structure CycleBooks (cfg : Config) (d : BuybackCycleDoc) (w : World) : Prop where
  once : ∀ leg : CycleLeg, (w.sentFor (leg.purpose d.id)).length ≤ 1
  filed : ∀ (leg : CycleLeg) h, leg.hash d = some h →
    ∃ tx, w.sentFor (leg.purpose d.id) = [tx] ∧ tx.hash = h
  acquired : ∀ n, d.wfairAcquiredWei = some n → d.swapTxHash.isSome = true
  shares : ∀ label n, d.amountWei label = some n → ∃ total shares,
    d.wfairAcquiredWei = some total ∧ splitByBps total cfg.buybackBurnBps cfg.buybackTreasuryBps
      cfg.buybackMasternodeBps = .ok shares ∧ n = shares label
  burned : ∀ label, ∀ tx ∈ w.sentFor (.cycleBurn d.id label), tx.sender = cfg.bridgeEoaAddress ∧
    ∃ n destinations, d.amountWei label = some n ∧ resolveDestinations cfg = .ok destinations ∧
      tx.call = .bridgeBurn n (fairAddressToBytes (destinations label))
  complete : d.status = .complete → ∀ leg, w.landed d leg

/-- The books of all the cycles, of which one may be open. -/
structure CycleInv (cfg : Config) (w : World) : Prop where
  books : ∀ id d, w.buybackCycles.get id = some d → CycleBooks cfg d w
  absent : ∀ id (leg : CycleLeg), w.buybackCycles.get id = none → w.sentFor (leg.purpose id) = []
  single : ∀ i j d e, w.buybackCycles.get i = some d → w.buybackCycles.get j = some e →
    d.isOpen = true → e.isOpen = true → i = j

/-- Every leg that was sent is on file, but for the one that is excepted. -/
def World.LegsFiled (w : World) (except : Option (ObjectId × CycleLeg)) : Prop :=
  ∀ id d (leg : CycleLeg), w.buybackCycles.get id = some d → leg.hash d = none →
    except ≠ some (id, leg) → w.sentFor (leg.purpose id) = []

/-- Neither the cycles nor their transactions differ. -/
structure SameBuybacks (w w' : World) : Prop where
  cycles : w'.buybackCycles = w.buybackCycles
  sent : ∀ id (leg : CycleLeg), w'.sentFor (leg.purpose id) = w.sentFor (leg.purpose id)
  receipts : ∀ h r, w.base.receipts h = some r → w'.base.receipts h = some r

/-- A cycle that is complete or failed stays as it is. -/
def ClosedKept (w w' : World) : Prop :=
  ∀ id d, w.buybackCycles.get id = some d → d.isOpen = false →
    w'.buybackCycles.get id = some d ∧
      ∀ leg : CycleLeg, w'.sentFor (leg.purpose id) = w.sentFor (leg.purpose id)

theorem SameBuybacks.refl (w : World) : SameBuybacks w w := ⟨rfl, fun _ _ => rfl, fun _ _ h => h⟩

theorem SameBuybacks.trans {u v w : World} (h : SameBuybacks u v) (h' : SameBuybacks v w) :
    SameBuybacks u w where
  cycles := h'.cycles.trans h.cycles
  sent id leg := (h'.sent id leg).trans (h.sent id leg)
  receipts hash r hr := h'.receipts hash r (h.receipts hash r hr)

theorem SameBuybacks.succeeded (h : SameBuybacks w w') {hash : Hash} (hs : w.succeeded hash) :
    w'.succeeded hash := by
  obtain ⟨r, hr, hgood⟩ := hs
  exact ⟨r, h.receipts hash r hr, hgood⟩

theorem SameBuybacks.landed (h : SameBuybacks w w') {d : BuybackCycleDoc} {leg : CycleLeg}
    (hl : w.landed d leg) : w'.landed d leg := by
  obtain ⟨hash, hfiled, hs⟩ := hl
  exact ⟨hash, hfiled, h.succeeded hs⟩

theorem SameBuybacks.closed_kept (h : SameBuybacks w w') : ClosedKept w w' :=
  fun id _ hd _ => ⟨h.cycles ▸ hd, h.sent id⟩

theorem ClosedKept.trans {u v w : World} (h : ClosedKept u v) (h' : ClosedKept v w) :
    ClosedKept u w := by
  intro id d hd hclosed
  obtain ⟨hd', hsent⟩ := h id d hd hclosed
  obtain ⟨hd'', hsent'⟩ := h' id d hd' hclosed
  exact ⟨hd'', fun leg => (hsent' leg).trans (hsent leg)⟩

/-- The books of a row depend on what was sent for its cycle and on the receipts alone. -/
theorem CycleBooks.kept {d : BuybackCycleDoc} (hb : CycleBooks cfg d w)
    (hsent : ∀ leg : CycleLeg, w'.sentFor (leg.purpose d.id) = w.sentFor (leg.purpose d.id))
    (hreceipts : ∀ h r, w.base.receipts h = some r → w'.base.receipts h = some r) :
    CycleBooks cfg d w' where
  once leg := hsent leg ▸ hb.once leg
  filed leg h hh := hsent leg ▸ hb.filed leg h hh
  acquired := hb.acquired
  shares := hb.shares
  burned label tx htx := hb.burned label tx (hsent (.burn label) ▸ htx)
  complete hc leg := by
    obtain ⟨h, hfiled, r, hr, hgood⟩ := hb.complete hc leg
    exact ⟨h, hfiled, r, hreceipts h r hr, hgood⟩

theorem CycleInv.kept (hi : CycleInv cfg w) (h : SameBuybacks w w') : CycleInv cfg w' where
  books id d hd := (hi.books id d (h.cycles ▸ hd)).kept (h.sent d.id) h.receipts
  absent id leg hnone := (h.sent id leg).trans (hi.absent id leg (h.cycles ▸ hnone))
  single i j d e hd he := hi.single i j d e (h.cycles ▸ hd) (h.cycles ▸ he)

theorem World.LegsFiled.kept {x : Option (ObjectId × CycleLeg)} (hf : w.LegsFiled x)
    (h : SameBuybacks w w') : w'.LegsFiled x :=
  fun id d leg hd hnone hx => (h.sent id leg).trans (hf id d leg (h.cycles ▸ hd) hnone hx)

/-- The request touches neither the cycles nor their transactions. -/
def Op.besideCycles {β : Type} : Op β → Prop
  | .buybackCycle _ => False
  | .sendWallet _ _ purpose => purpose = .setup
  | _ => True

theorem SameBuybacks.of_effect {β : Type} {op : Op β} {row : Option ObjectId} {x : Except JsError β}
    (hop : op.besideCycles) (h : effect row op w = some (x, w')) : SameBuybacks w w' := by
  have hframe := effect_frame h
  have hreceipts (hash : Hash) (r : Receipt) (hr : w.base.receipts hash = some r) :
      w'.base.receipts hash = some r := effect_receipts h ▸ hr
  have hcycles : op.part ≠ .buybackCycles := by
    cases op with
    | buybackCycle _ => cases hop
    | _ => rintro ⟨⟩
  by_cases hwallets : op.part = .wallets
  · cases op with
    | sendWallet sender c purpose =>
        cases hop
        obtain ⟨_, _, rfl⟩ | ⟨_, rfl, _⟩ := effect_sendWallet h
        · exact .refl _
        · exact ⟨rfl, fun id leg => World.sentFor_sendWallet_other _ sender c
            (leg.purpose_ne_setup id), hreceipts⟩
    | _ => cases hwallets
  · refine ⟨hframe.buybackCycles hcycles, fun id leg => ?_, hreceipts⟩
    rw [World.sentFor, World.sentFor, hframe.walletTxs hwallets]

theorem recordCall_cycles {β : Type} (op : Op β) (w : World) :
    SameBuybacks w (recordCall op w) := by
  cases op <;> exact ⟨rfl, fun _ _ => rfl, fun _ _ h => h⟩

def cycleRules (cfg : Config) : Rules (service cfg buybackRuns) World where
  world w := w
  inv := CycleInv cfg
  rely _ := SameBuybacks
  guar _ := ClosedKept
  rest _ w := w.LegsFiled none
  hist := ClosedKept
  rely_refl _ := .refl
  rely_trans := .trans
  guar_refl _ w := (SameBuybacks.refl w).closed_kept
  guar_rely hij _ _ _ := absurd rfl hij
  rest_stable _ _ h hs := hs.kept h
  hist_refl w := (SameBuybacks.refl w).closed_kept
  hist_trans := .trans
  guar_hist _ _ h := h
  env_step {e s w} hi he := by
    have hsame := EnvEvent.occur_surroundings (service_env he).2
    have hsent (p : Purpose) : w.sentFor p = s.sentFor p := by
      rw [World.sentFor, World.sentFor, hsame.walletTxs]
    have hrely : SameBuybacks s w :=
      ⟨hsame.buybackCycles, fun id leg => hsent _, hsame.receipts⟩
    exact ⟨w, rfl, hi.kept hrely, hrely.closed_kept, fun _ => hrely⟩

theorem BuybackCycleDoc.not_complete {d : BuybackCycleDoc} (h : d.isOpen = true) :
    d.status ≠ .complete := by
  intro hc
  rw [isOpen, hc] at h
  cases h

section Updates
variable {d : BuybackCycleDoc} {u : BuybackCycleSet}

/-- The row of an open cycle is set. -/
theorem CycleInv.set (hi : CycleInv cfg w) (hd : w.buybackCycles.get d.id = some d)
    (hopen : d.isOpen = true) (hb : CycleBooks cfg (u.apply d) w) :
    CycleInv cfg (w.setBuybackCycle d.id u) := by
  have hget : ∀ i, (w.setBuybackCycle d.id u).buybackCycles.get i =
      if i = d.id then some (u.apply d) else w.buybackCycles.get i := by
    intro i
    refine (Collection.get_modify _ _ _ _).trans ?_
    rw [hd]
    rfl
  have hopened : ∀ i e, (w.setBuybackCycle d.id u).buybackCycles.get i = some e →
      e.isOpen = true → ∃ e', w.buybackCycles.get i = some e' ∧ e'.isOpen = true := by
    intro i e he heopen
    rw [hget] at he
    split at he
    · rename_i hid
      exact ⟨d, hid ▸ hd, hopen⟩
    · exact ⟨e, he, heopen⟩
  refine ⟨fun i e he => ?_, fun i leg hnone => ?_, fun i j e f he hf heopen hfopen => ?_⟩
  · rw [hget] at he
    split at he
    · cases he
      exact hb.kept (fun _ => rfl) fun _ _ h => h
    · exact (hi.books i e he).kept (fun _ => rfl) fun _ _ h => h
  · rw [hget] at hnone
    split at hnone
    · cases hnone
    · exact hi.absent i leg hnone
  · obtain ⟨e', he', heopen'⟩ := hopened i e he heopen
    obtain ⟨f', hf', hfopen'⟩ := hopened j f hf hfopen
    exact hi.single i j e' f' he' hf' heopen' hfopen'

theorem ClosedKept.set (hd : w.buybackCycles.get d.id = some d) (hopen : d.isOpen = true) :
    ClosedKept w (w.setBuybackCycle d.id u) := by
  intro i e he hclosed
  refine ⟨?_, fun _ => rfl⟩
  have hne : i ≠ d.id := by
    rintro rfl
    cases hd.symm.trans he
    cases hopen.symm.trans hclosed
  exact (Collection.get_modify_other _ u hne).trans he

/-- An update that touches neither hashes nor amounts and does not complete the cycle. -/
theorem CycleBooks.note (hb : CycleBooks cfg d w)
    (hhash : ∀ leg : CycleLeg, leg.hash (u.apply d) = leg.hash d)
    (hamount : ∀ label, (u.apply d).amountWei label = d.amountWei label)
    (hacquired : (u.apply d).wfairAcquiredWei = d.wfairAcquiredWei)
    (hstatus : (u.apply d).status ≠ .complete) : CycleBooks cfg (u.apply d) w where
  once := hb.once
  filed leg h hh := hb.filed leg h (hhash leg ▸ hh)
  acquired n hn := (congrArg Option.isSome (hhash .swap)).trans (hb.acquired n (hacquired ▸ hn))
  shares label n hn := by
    rw [hacquired]
    exact hb.shares label n (hamount label ▸ hn)
  burned label := by
    rw [hamount]
    exact hb.burned label
  complete hc := absurd hc hstatus

/-- What the swap brought is put on file once. -/
theorem CycleBooks.acquire {n : Int} (hb : CycleBooks cfg d w) (hopen : d.isOpen = true)
    (hnone : d.wfairAcquiredWei = none) (hswap : d.swapTxHash.isSome = true) :
    CycleBooks cfg ({ wfairAcquiredWei := some n : BuybackCycleSet }.apply d) w where
  once := hb.once
  filed leg h hh := hb.filed leg h
    ((leg.hash_apply (u := { wfairAcquiredWei := some n }) rfl d).symm.trans hh)
  acquired _ _ := hswap
  shares label m hm := by
    have hold : d.amountWei label = some m := by cases label <;> exact hm
    obtain ⟨total, _, htotal, _⟩ := hb.shares label m hold
    cases hnone.symm.trans htotal
  burned label := by
    have hold : ({ wfairAcquiredWei := some n : BuybackCycleSet }.apply d).amountWei label =
        d.amountWei label := by cases label <;> rfl
    rw [hold]
    exact hb.burned label
  complete hc := absurd hc (BuybackCycleDoc.not_complete hopen)

/-- The amount that is to be burned is put on file before anything is sent. -/
theorem CycleBooks.record {label : BurnLabel} {total : Int} {shares : BurnLabel → Int}
    (hb : CycleBooks cfg d w) (htotal : d.wfairAcquiredWei = some total)
    (hshares : splitByBps total cfg.buybackBurnBps cfg.buybackTreasuryBps
      cfg.buybackMasternodeBps = .ok shares)
    (hnone : w.sentFor (.cycleBurn d.id label) = []) :
    CycleBooks cfg ((label.record (shares label)).apply d) w := by
  have hacquired : ((label.record (shares label)).apply d).wfairAcquiredWei = some total := by
    cases label <;> exact htotal
  have hhash (leg : CycleLeg) := leg.hash_record label (shares label) d
  have hamount : ∀ other, other ≠ label →
      ((label.record (shares label)).apply d).amountWei other = d.amountWei other := by
    intro other hne
    cases label <;> cases other <;> first | exact absurd rfl hne | rfl
  have hid : ((label.record (shares label)).apply d).id = d.id := rfl
  refine ⟨hb.once, fun leg h hh => hb.filed leg h (hhash leg ▸ hh), fun n hn => ?_,
    fun other n hn => ?_, fun other tx htx => ?_, fun hc => ?_⟩
  · exact (congrArg Option.isSome (hhash .swap)).trans (hb.acquired total htotal)
  · by_cases hother : other = label
    · subst hother
      refine ⟨total, shares, hacquired, hshares, ?_⟩
      cases other <;> cases hn <;> rfl
    · rw [hamount other hother] at hn
      obtain ⟨total', shares', htotal', hrest⟩ := hb.shares other n hn
      cases htotal.symm.trans htotal'
      exact ⟨total, shares', hacquired, hrest⟩
  · by_cases hother : other = label
    · subst hother
      rw [hid, hnone] at htx
      cases htx
    · rw [hamount other hother]
      exact hb.burned other tx htx
  · cases label <;> cases hc

/-- The hash of a leg is put on file. -/
theorem CycleBooks.file {leg : CycleLeg} {tx : WalletTx} (hb : CycleBooks cfg d w)
    (hopen : d.isOpen = true) (hsent : w.sentFor (leg.purpose d.id) = [tx]) :
    CycleBooks cfg ((leg.file tx.hash).apply d) w := by
  have hamount : ∀ label, ((leg.file tx.hash).apply d).amountWei label = d.amountWei label := by
    intro label
    cases leg with
    | swap => cases label <;> rfl
    | burn other => cases other <;> cases label <;> rfl
  have hacquired := leg.acquired_file tx.hash d
  refine ⟨hb.once, fun other h hh => ?_, fun n hn => ?_, fun label n hn => ?_,
    fun label => ?_, fun hc => ?_⟩
  · by_cases hother : other = leg
    · subst hother
      cases (other.hash_file tx.hash d).symm.trans hh
      exact ⟨tx, hsent, rfl⟩
    · exact hb.filed other h (CycleLeg.hash_file_other hother tx.hash d ▸ hh)
  · have hswap := hb.acquired n (hacquired ▸ hn)
    by_cases hleg : CycleLeg.swap = leg
    · subst hleg
      rfl
    · exact (congrArg Option.isSome (CycleLeg.hash_file_other hleg tx.hash d)).trans hswap
  · rw [hacquired]
    exact hb.shares label n (hamount label ▸ hn)
  · rw [hamount]
    exact hb.burned label
  · exact absurd hc (BuybackCycleDoc.not_complete ((leg.isOpen_file tx.hash d).trans hopen))

/-- A cycle is complete when all that it sent has landed. -/
theorem CycleBooks.finish (hb : CycleBooks cfg d w) (hlanded : ∀ leg, w.landed d leg) :
    CycleBooks cfg ({ status := some .complete : BuybackCycleSet }.apply d) w := by
  have hhash (leg : CycleLeg) :
      leg.hash ({ status := some .complete : BuybackCycleSet }.apply d) = leg.hash d :=
    leg.hash_apply rfl d
  have hamount : ∀ label, ({ status := some .complete : BuybackCycleSet }.apply d).amountWei label =
      d.amountWei label := fun label => by cases label <;> rfl
  refine ⟨hb.once, fun leg h hh => hb.filed leg h (hhash leg ▸ hh), hb.acquired,
    fun label n hn => hb.shares label n (hamount label ▸ hn), fun label => ?_, fun _ leg => ?_⟩
  · rw [hamount]
    exact hb.burned label
  · obtain ⟨h, hfiled, hs⟩ := hlanded leg
    exact ⟨h, (hhash leg).trans hfiled, hs⟩

end Updates

section Outline
variable {α β : Type} {op : Op β} {P : World → Prop} {d : BuybackCycleDoc} {legs : List CycleLeg}
  {leg : CycleLeg}

/-- What is known of the cycles, whatever else happens. -/
def CycleFact (P : World → Prop) : Prop := ∀ w w', SameBuybacks w w' → P w → P w'

theorem CycleFact.stable (hP : CycleFact P) : (cycleRules cfg).Stable () P :=
  fun s t _ _ hst hs => hP s t hst hs

theorem cycle_performs {M : Except JsError β → World → Prop}
    (h : ∀ s out r w, CycleInv cfg s → P s → buybackRuns.may () op out s = true →
      answer none op out s = some (r, w) → CycleInv cfg w ∧ ClosedKept s w ∧ M r w) :
    (cycleRules cfg).Performs () P op M := by
  intro s out r w hi hs _ hmay hans
  simp only [cycleRules, service, Bool.and_eq_true] at hmay hans
  exact ⟨w, rfl, h s out r w hi hs hmay.2 hans⟩

/-- A request beside the cycles answers what it finds, and what is known stays known. -/
theorem cycle_beside {N : β → World → Prop} (hop : op.besideCycles) (hP : CycleFact P)
    (hN : ∀ s a w, P s → effect none op (recordCall op s) = some (.ok a, w) → N a w) :
    (cycleRules cfg).Performs () P op (Answered (fun a w => P w ∧ N a w) P) := by
  refine cycle_performs fun s out r w hi hs _ hans => ?_
  have hrec := recordCall_cycles op s
  obtain ⟨_, _, rfl, rfl⟩ | ⟨x, hx, hout⟩ := answer_cases hans
  · exact ⟨hi.kept hrec, hrec.closed_kept, hP _ _ hrec hs⟩
  · have hsame : SameBuybacks s w := hrec.trans (.of_effect hop hx)
    refine ⟨hi.kept hsame, hsame.closed_kept, ?_⟩
    have hPw := hP _ _ hsame hs
    obtain ⟨_, rfl⟩ | ⟨_, _, rfl⟩ := hout
    · cases r with
      | error _ => exact hPw
      | ok a => exact ⟨hPw, hN s a w hs hx⟩
    · exact hPw

theorem cycle_only {p : Promise α} (h : p.Only Op.besideCycles) (hP : CycleFact P)
    (hrest : ∀ w, P w → w.LegsFiled none) :
    (cycleRules cfg).Triple () P p (fun _ => P) fun _ w => w.LegsFiled none := by
  refine Triple.weaken (.harmless h hP.stable (fun w _ hw => hrest w hw) fun op hop =>
    (cycle_beside (N := fun _ _ => True) hop hP fun _ _ _ _ _ => trivial).post ?_)
    (fun _ _ h => h) (fun _ _ _ h => h) fun _ w _ hw => hrest w hw
  intro r w _ hr
  cases r with
  | ok _ => exact hr.1
  | error _ => exact hr

theorem LegsFiled.unmoved {x : Option (ObjectId × CycleLeg)} : CycleFact fun w => w.LegsFiled x :=
  fun _ _ h hf => hf.kept h

theorem cycle_rest {p : Promise α} (h : p.Only Op.besideCycles) :
    (cycleRules cfg).Triple () (fun w => w.LegsFiled none) p (fun _ w => w.LegsFiled none)
      fun _ w => w.LegsFiled none :=
  cycle_only h LegsFiled.unmoved fun _ h => h

/-- The run is at an open cycle of which all that was sent is on file, and these have landed. -/
structure AtCycle (d : BuybackCycleDoc) (legs : List CycleLeg) (w : World) : Prop where
  row : w.buybackCycles.get d.id = some d
  isOpen : d.isOpen = true
  filed : w.LegsFiled none
  landed : ∀ leg ∈ legs, w.landed d leg

/-- The leg is sent, and its hash is to be put on file. -/
structure LegSent (d : BuybackCycleDoc) (legs : List CycleLeg) (leg : CycleLeg) (h : Hash)
    (w : World) : Prop where
  row : w.buybackCycles.get d.id = some d
  isOpen : d.isOpen = true
  unfiled : leg.hash d = none
  sent : ∃ tx, w.sentFor (leg.purpose d.id) = [tx] ∧ tx.hash = h
  filed : w.LegsFiled (some (d.id, leg))
  landed : ∀ leg ∈ legs, w.landed d leg

theorem AtCycle.unmoved : CycleFact (AtCycle d legs) := fun _ _ h hw =>
  ⟨h.cycles ▸ hw.row, hw.isOpen, hw.filed.kept h, fun leg hl => h.landed (hw.landed leg hl)⟩

theorem LegSent.unmoved {h : Hash} : CycleFact (LegSent d legs leg h) := by
  intro w w' hsame hw
  obtain ⟨tx, hsent, hhash⟩ := hw.sent
  exact ⟨hsame.cycles ▸ hw.row, hw.isOpen, hw.unfiled, ⟨tx, (hsame.sent _ _).trans hsent, hhash⟩,
    hw.filed.kept hsame, fun leg hl => hsame.landed (hw.landed leg hl)⟩

/-- An update of the open cycle. -/
theorem cycle_update {u : BuybackCycleSet} {Q : World → Prop}
    (hrow : ∀ w, P w → w.buybackCycles.get d.id = some d ∧ d.isOpen = true)
    (h : ∀ w, CycleInv cfg w → P w → CycleBooks cfg (u.apply d) w ∧ Q (w.setBuybackCycle d.id u))
    (hP : Op.filesCycleHash (.buybackCycle (.updateOne (fun e => e.id == d.id && true) u)) =
      false → ∀ w, P w → w.LegsFiled none)
    (hQ : ∀ w, Q w → w.LegsFiled none) :
    (cycleRules cfg).Performs () P (.buybackCycle (.updateOne (fun e => e.id == d.id && true) u))
      (Answered (fun _ => Q) fun w => w.LegsFiled none) := by
  refine cycle_performs fun s out r w hi hs hmay hans => ?_
  obtain ⟨hd, hopen⟩ := hrow s hs
  obtain ⟨e, rfl, rfl, rfl⟩ | ⟨x, hx, hout⟩ := answer_cases hans
  · refine ⟨hi, (SameBuybacks.refl _).closed_kept, hP ?_ _ hs⟩
    simpa [buybackRuns, Outcome.isFail] using hmay
  · cases (BuybackCycle.effect_updateById none d.id u s).symm.trans hx
    obtain ⟨hb, hq⟩ := h s hi hs
    refine ⟨hi.set hd hopen hb, .set hd hopen, ?_⟩
    obtain ⟨_, rfl⟩ | ⟨_, _, rfl⟩ := hout
    · exact hq
    · exact hQ _ hq

theorem get_set_self (hd : w.buybackCycles.get d.id = some d) (u : BuybackCycleSet) :
    (w.setBuybackCycle d.id u).buybackCycles.get (u.apply d).id = some (u.apply d) :=
  World.get_setBuybackCycle hd u

/-- What was sent and is on file stays so, if the update takes no hash away. -/
theorem World.LegsFiled.set {x y : Option (ObjectId × CycleLeg)} {u : BuybackCycleSet}
    (hf : w.LegsFiled x) (hd : w.buybackCycles.get d.id = some d)
    (hu : ∀ leg : CycleLeg, leg.hash (u.apply d) = none → leg.hash d = none ∧ x ≠ some (d.id, leg))
    (hx : ∀ id leg, id ≠ d.id → x ≠ some (id, leg)) :
    (w.setBuybackCycle d.id u).LegsFiled y := by
  intro id e leg he hnone _
  refine Eq.trans (b := w.sentFor (leg.purpose id)) rfl ?_
  by_cases hid : id = d.id
  · subst hid
    cases (World.get_setBuybackCycle hd u).symm.trans he
    obtain ⟨hold, hexcept⟩ := hu leg hnone
    exact hf d.id d leg hd hold hexcept
  · exact hf id e leg ((Collection.get_modify_other _ u hid).symm.trans he) hnone
      (hx id leg hid)

/-- An update of the cycle without hashes that keeps it open. -/
theorem AtCycle.set {u : BuybackCycleSet} (hw : AtCycle d legs w)
    (hhash : ∀ leg : CycleLeg, leg.hash (u.apply d) = leg.hash d)
    (hopen : (u.apply d).isOpen = true) :
    AtCycle (u.apply d) legs (w.setBuybackCycle d.id u) where
  row := get_set_self hw.row u
  isOpen := hopen
  filed := hw.filed.set hw.row (fun leg hnone => ⟨hhash leg ▸ hnone, by rintro ⟨⟩⟩)
    fun _ _ _ => by rintro ⟨⟩
  landed leg hl := by
    obtain ⟨h, hfiled, hs⟩ := hw.landed leg hl
    exact ⟨h, (hhash leg).trans hfiled, hs⟩

theorem at_update {u : BuybackCycleSet}
    (hhash : ∀ leg : CycleLeg, leg.hash (u.apply d) = leg.hash d)
    (hopen : d.isOpen = true → (u.apply d).isOpen = true)
    (h : ∀ w, CycleInv cfg w → AtCycle d legs w → CycleBooks cfg (u.apply d) w) :
    (cycleRules cfg).Triple () (AtCycle d legs) (BuybackCycle.updateById d.id u)
      (fun _ => AtCycle (u.apply d) legs) fun _ w => w.LegsFiled none := by
  refine .call AtCycle.unmoved.stable (.of_rest fun w _ hw => hw.filed) (cycle_update
    (fun w hw => ⟨hw.row, hw.isOpen⟩)
    (fun w hi hw => ⟨h w hi hw, hw.set hhash (hopen hw.isOpen)⟩) (fun _ w hw => hw.filed)
    fun w hw => hw.filed) (fun _ => AtCycle.unmoved.stable) .rest

/-- A cycle whose transaction has reverted fails. -/
theorem markFailed_rests (message : String) :
    (cycleRules cfg).Triple () (AtCycle d legs) (markFailed cfg d.id message)
      (fun _ w => w.LegsFiled none) fun _ w => w.LegsFiled none := by
  have hhash (leg : CycleLeg) : leg.hash
      ({ status := some .failed, errorMessage := some message : BuybackCycleSet }.apply d) =
        leg.hash d := leg.hash_apply rfl d
  refine .bind (.call AtCycle.unmoved.stable (.of_rest fun w _ hw => hw.filed) (cycle_update
    (Q := fun w => w.LegsFiled none) (fun w hw => ⟨hw.row, hw.isOpen⟩) (fun w hi hw => ⟨?_, ?_⟩)
    (fun _ w hw => hw.filed) fun _ h => h) (fun _ => .rest) .rest) fun _ =>
      cycle_rest (alert_only (fun _ => trivial) _)
  · exact (hi.books d.id d hw.row).note hhash (fun label => by cases label <;> rfl) rfl
      (by rintro ⟨⟩)
  · exact hw.filed.set hw.row (fun leg hnone => ⟨hhash leg ▸ hnone, by rintro ⟨⟩⟩)
      fun _ _ _ => by rintro ⟨⟩

/-- A leg on file has landed once its receipt is good. -/
theorem awaitSuccess_lands (leg : CycleLeg) {h : Hash} (hfiled : leg.hash d = some h)
    (what : String) :
    (cycleRules cfg).Triple () (AtCycle d legs) (awaitSuccess cfg d.id what h)
      (fun _ => AtCycle d (leg :: legs)) fun _ w => w.LegsFiled none := by
  have hmined (r : Receipt) : CycleFact fun w => AtCycle d legs w ∧ w.base.receipts h = some r :=
    fun w w' hsame hw => ⟨AtCycle.unmoved w w' hsame hw.1, hsame.receipts h r hw.2⟩
  refine .bind (M := fun r w => AtCycle d legs w ∧ w.base.receipts h = some r) ?_ fun receipt => ?_
  · refine Triple.weaken (.call AtCycle.unmoved.stable (.of_rest fun w _ hw => hw.filed)
      (cycle_beside trivial AtCycle.unmoved ?_) (fun r => (hmined r).stable)
      AtCycle.unmoved.stable) (fun _ _ h => h) (fun _ _ _ h => h) fun _ w _ hw => hw.filed
    intro s r w _ hx
    obtain ⟨a, ha, hr⟩ := Option.map_eq_some_iff.mp hx
    cases hr
    exact ha
  · split
    · rename_i hgood
      refine .pure (hmined receipt).stable fun w _ hw => ?_
      refine ⟨hw.1.row, hw.1.isOpen, hw.1.filed, fun l hl => ?_⟩
      obtain rfl | hl := List.mem_cons.mp hl
      · exact ⟨h, hfiled, receipt, hw.2, hgood⟩
      · exact hw.1.landed l hl
    · refine Triple.pre (P := AtCycle d legs) ?_ fun w _ hw => hw.1
      exact .bind (markFailed_rests _) fun _ => .throw .rest fun _ _ h => h

/-- The call that a leg may make: a burn is of the amount on file, for its destination. -/
def CycleLeg.calls (cfg : Config) (d : BuybackCycleDoc) (c : WalletCall) : CycleLeg → Prop
  | .swap => True
  | .burn label => ∃ n destinations, d.amountWei label = some n ∧
      resolveDestinations cfg = .ok destinations ∧
      c = .bridgeBurn n (fairAddressToBytes (destinations label))

section Send
variable {c : WalletCall}

theorem sentFor_other {id : ObjectId} {other : CycleLeg} (hne : (id, other) ≠ (d.id, leg))
    (sender : Address) : (w.sendWallet sender c (leg.purpose d.id)).sentFor (other.purpose id) =
      w.sentFor (other.purpose id) := by
  refine w.sentFor_sendWallet_other sender c fun hsame => hne ?_
  obtain ⟨hid, hleg⟩ := CycleLeg.purpose_inj hsame
  rw [hid, hleg]

theorem CycleBooks.send (hb : CycleBooks cfg d w) (hopen : d.isOpen = true)
    (hnone : leg.hash d = none) (hempty : w.sentFor (leg.purpose d.id) = [])
    (hc : leg.calls cfg d c) :
    CycleBooks cfg d (w.sendWallet cfg.bridgeEoaAddress c (leg.purpose d.id)) := by
  have hsent := w.sentFor_sendWallet cfg.bridgeEoaAddress c hempty
  have hother : ∀ other, other ≠ leg →
      (w.sendWallet cfg.bridgeEoaAddress c (leg.purpose d.id)).sentFor (other.purpose d.id) =
        w.sentFor (other.purpose d.id) :=
    fun other hne => sentFor_other (fun h => hne (Prod.mk.inj h).2) _
  refine ⟨fun other => ?_, fun other h hh => ?_, hb.acquired, hb.shares, fun label tx htx => ?_,
    fun hcomplete => absurd hcomplete (BuybackCycleDoc.not_complete hopen)⟩
  · by_cases hleg : other = leg
    · subst hleg
      rw [hsent]
      exact Nat.le_refl 1
    · rw [hother other hleg]
      exact hb.once other
  · have hleg : other ≠ leg := by
      rintro rfl
      cases hnone.symm.trans hh
    rw [hother other hleg]
    exact hb.filed other h hh
  · by_cases hleg : CycleLeg.burn label = leg
    · subst hleg
      rw [show Purpose.cycleBurn d.id label = (CycleLeg.burn label).purpose d.id from rfl,
        hsent] at htx
      obtain rfl := List.mem_singleton.mp htx
      exact ⟨rfl, hc⟩
    · exact hb.burned label tx (hother (.burn label) hleg ▸ htx)

theorem CycleInv.send (hi : CycleInv cfg w) (hw : AtCycle d legs w) (hnone : leg.hash d = none)
    (hc : leg.calls cfg d c) :
    CycleInv cfg (w.sendWallet cfg.bridgeEoaAddress c (leg.purpose d.id)) := by
  have hempty := hw.filed d.id d leg hw.row hnone (by rintro ⟨⟩)
  refine ⟨fun id e he => ?_, fun id other hget => ?_, hi.single⟩
  · by_cases hid : id = d.id
    · subst hid
      cases hw.row.symm.trans he
      exact (hi.books d.id d hw.row).send hw.isOpen hnone hempty hc
    · refine (hi.books id e he).kept (fun other => sentFor_other ?_ _) fun _ _ h => h
      intro h
      exact hid ((Collection.get_id he).symm.trans (Prod.mk.inj h).1)
  · refine (sentFor_other ?_ _).trans (hi.absent id other hget)
    intro h
    rw [(Prod.mk.inj h).1] at hget
    cases hget.symm.trans hw.row

/-- The admin broadcasts a leg of which nothing is on file. -/
theorem cycle_send (leg : CycleLeg) (hnone : leg.hash d = none) (hc : leg.calls cfg d c) :
    (cycleRules cfg).Performs () (AtCycle d legs)
      (.sendWallet cfg.bridgeEoaAddress c (leg.purpose d.id))
      (Answered (LegSent d legs leg) fun w => w.LegsFiled none) := by
  refine cycle_performs fun s out r w hi hs hmay hans => ?_
  obtain ⟨e, rfl, rfl, rfl⟩ | ⟨x, hx, hout⟩ := answer_cases hans
  · exact ⟨hi, (SameBuybacks.refl _).closed_kept, hs.filed⟩
  · obtain ⟨e, rfl, rfl⟩ | ⟨rfl, rfl, _⟩ := effect_sendWallet hx
    · refine ⟨hi, (SameBuybacks.refl _).closed_kept, ?_⟩
      obtain ⟨_, rfl⟩ | ⟨_, _, rfl⟩ := hout <;> exact hs.filed
    · refine ⟨hi.send hs hnone hc, fun id e he hclosed => ⟨he, fun other => sentFor_other ?_ _⟩, ?_⟩
      · intro h
        rw [(Prod.mk.inj h).1] at he
        cases hs.row.symm.trans he
        cases hs.isOpen.symm.trans hclosed
      · obtain ⟨_, rfl⟩ | ⟨_, rfl, _⟩ := hout
        · have hempty := hs.filed d.id d leg hs.row hnone (by rintro ⟨⟩)
          refine ⟨hs.row, hs.isOpen, hnone, ⟨_, World.sentFor_sendWallet _ _ c hempty, rfl⟩,
            fun id e other he hother hne => ?_, hs.landed⟩
          refine (sentFor_other (fun h => hne ?_) _).trans
            (hs.filed id e other he hother (by rintro ⟨⟩))
          rw [h]
        · have hleg := leg.purpose_ne_setup d.id
          simp [buybackRuns, Outcome.isLost, Ne.symm hleg] at hmay

end Send

/-- The hash of what was sent is put on file. -/
theorem file_leg (leg : CycleLeg) {h : Hash} :
    (cycleRules cfg).Triple () (LegSent d legs leg h) (BuybackCycle.updateById d.id (leg.file h))
      (fun _ => AtCycle ((leg.file h).apply d) legs) fun _ w => w.LegsFiled none := by
  refine .call LegSent.unmoved.stable (fun w _ _ hkill => ?_) (cycle_update
    (fun w hw => ⟨hw.row, hw.isOpen⟩) (fun w hi hw => ⟨?_, ?_⟩) (fun hfiles => ?_)
    fun w hw => hw.filed) (fun _ => AtCycle.unmoved.stable) .rest
  · simp only [cycleRules, service, buybackRuns, Op.filesCycleHash, leg.files_file,
      Bool.not_true, Bool.and_false] at hkill
    cases hkill
  · obtain ⟨tx, hsent, rfl⟩ := hw.sent
    exact (hi.books d.id d hw.row).file hw.isOpen hsent
  · refine ⟨get_set_self hw.row _, (leg.isOpen_file h d).trans hw.isOpen, ?_, fun l hl => ?_⟩
    · refine hw.filed.set hw.row (fun other hnone => ?_) fun id other hid hx => ?_
      · have hother : other ≠ leg := by
          rintro rfl
          cases (other.hash_file h d).symm.trans hnone
        refine ⟨CycleLeg.hash_file_other hother h d ▸ hnone, ?_⟩
        rintro ⟨⟩
        exact hother rfl
      · cases hx
        exact hid rfl
    · obtain ⟨h', hfiled, hs⟩ := hw.landed l hl
      have hother : l ≠ leg := by
        rintro rfl
        cases hw.unfiled.symm.trans hfiled
      exact ⟨h', (CycleLeg.hash_file_other hother h d).trans hfiled, hs⟩
  · exact absurd ((leg.files_file h).symm.trans hfiles) (by rintro ⟨⟩)

/-- A leg that was sent is put on file and awaited. -/
theorem file_and_await (leg : CycleLeg) {h : Hash} (what : String) :
    (cycleRules cfg).Triple () (LegSent d legs leg h)
      (BuybackCycle.updateById d.id (leg.file h) >>= fun _ => awaitSuccess cfg d.id what h)
      (fun _ => AtCycle ((leg.file h).apply d) (leg :: legs)) fun _ w => w.LegsFiled none :=
  .bind (file_leg leg) fun _ => awaitSuccess_lands leg (leg.hash_file h d) what

/-- The cycles are read. -/
theorem cycle_find {filter : BuybackCycleDoc → Bool} {sort : Option (BuybackCycleDoc → Nat)}
    {M : Option BuybackCycleDoc → World → Prop}
    (h : ∀ w, P w → M (pick filter sort w.buybackCycles.docs) w)
    (hP : ∀ w, P w → w.LegsFiled none) :
    (cycleRules cfg).Performs () P (.buybackCycle (.findOne filter sort))
      (Answered M fun w => w.LegsFiled none) := by
  refine cycle_performs fun s out r w hi hs _ hans => ?_
  obtain ⟨e, rfl, rfl, rfl⟩ | ⟨x, hx, hout⟩ := answer_cases hans
  · exact ⟨hi, (SameBuybacks.refl _).closed_kept, hP _ hs⟩
  · cases hx
    refine ⟨hi, (SameBuybacks.refl _).closed_kept, ?_⟩
    obtain ⟨_, rfl⟩ | ⟨_, _, rfl⟩ := hout
    · exact h s hs
    · exact hP s hs

/-- Some cycle of which `F` is known, as it is on file. -/
def AtSome (F : BuybackCycleDoc → Prop) (legs : List CycleLeg) (w : World) : Prop :=
  ∃ d, F d ∧ AtCycle d legs w

theorem AtSome.unmoved {F : BuybackCycleDoc → Prop} : CycleFact (AtSome F legs) := by
  rintro w w' hsame ⟨d, hF, hw⟩
  exact ⟨d, hF, AtCycle.unmoved w w' hsame hw⟩

theorem AtCycle.known {F : BuybackCycleDoc → Prop} :
    CycleFact fun w => F d ∧ AtCycle d legs w :=
  fun w w' hsame hw => ⟨hw.1, AtCycle.unmoved w w' hsame hw.2⟩

/-- The row that is read again is the one on file. -/
theorem reloadCycle_reads {F : BuybackCycleDoc → Prop} {id : ObjectId} (hF : ∀ d, F d → d.id = id)
    (vanished : String) :
    (cycleRules cfg).Triple () (AtSome F legs) (reloadCycle id vanished)
      (fun live w => F live ∧ AtCycle live legs w) fun _ w => w.LegsFiled none := by
  have hstable (found : Option BuybackCycleDoc) : (cycleRules cfg).Stable ()
      (Found (fun live w => F live ∧ AtCycle live legs w) (fun w => w.LegsFiled none) found) := by
    cases found with
    | none => exact .rest
    | some live => exact AtCycle.known.stable
  refine .bind (.call AtSome.unmoved.stable (.of_rest ?_) (cycle_find ?_ ?_) hstable .rest)
    fun found => ?_
  · rintro w _ ⟨d, _, hw⟩
    exact hw.filed
  · rintro w ⟨d, hd, hw⟩
    have hpick : pick (fun e => e.id == id) none w.buybackCycles.docs = some d := hF d hd ▸ hw.row
    rw [hpick]
    exact ⟨hd, hw⟩
  · rintro w ⟨d, _, hw⟩
    exact hw.filed
  · cases found with
    | none => exact .throw .rest fun _ _ h => h
    | some live => exact .pure AtCycle.known.stable fun _ _ h => h

section Burns
variable {destinations : BurnLabel → String} {shares : BurnLabel → Int} {total : Int}

/-- The cycle with that identifier, whose swap has brought so much. -/
def HasProceeds (id : ObjectId) (total : Int) (d : BuybackCycleDoc) : Prop :=
  d.id = id ∧ d.wfairAcquiredWei = some total

theorem runBurnStep_lands (hdest : resolveDestinations cfg = .ok destinations)
    (hshares : splitByBps total cfg.buybackBurnBps cfg.buybackTreasuryBps
      cfg.buybackMasternodeBps = .ok shares)
    (htotal : d.wfairAcquiredWei = some total) (label : BurnLabel) :
    (cycleRules cfg).Triple () (AtCycle d legs)
      (runBurnStep cfg cfg.bridgeEoaAddress d label (destinations label) (shares label))
      (fun _ => AtSome (HasProceeds d.id total) (.burn label :: legs))
      fun _ w => w.LegsFiled none := by
  rw [runBurnStep]
  cases hnone : d.txHash label with
  | some h =>
      refine Triple.weaken (awaitSuccess_lands (.burn label) hnone _) (fun _ _ h => h)
        (fun _ w _ hw => ⟨d, ⟨rfl, htotal⟩, hw⟩) fun _ _ _ h => h
  | none =>
      have hhash (leg : CycleLeg) := leg.hash_record label (shares label) d
      have hamount : ((label.record (shares label)).apply d).amountWei label =
          some (shares label) := by cases label <;> rfl
      have hacquired : ((label.record (shares label)).apply d).wfairAcquiredWei = some total := by
        cases label <;> exact htotal
      refine .bind (at_update hhash (fun _ => by cases label <;> rfl) fun w hi hw =>
        (hi.books d.id d hw.row).record htotal hshares
          (hw.filed d.id d (.burn label) hw.row hnone (by rintro ⟨⟩))) fun _ => ?_
      refine .bind (M := LegSent ((label.record (shares label)).apply d) legs (.burn label))
        ?_ fun txHash => ?_
      · refine .bind (cycle_only (.ofExcept _) AtCycle.unmoved fun w hw => hw.filed) fun _ => ?_
        exact .call AtCycle.unmoved.stable (.of_rest fun w _ hw => hw.filed)
          (cycle_send (.burn label) ((hhash (.burn label)).trans hnone)
            ⟨shares label, destinations, hamount, hdest, rfl⟩)
          (fun _ => LegSent.unmoved.stable) .rest
      · have hfiled := (CycleLeg.acquired_file (.burn label) txHash
          ((label.record (shares label)).apply d)).trans hacquired
        exact Triple.weaken (file_and_await (.burn label)
          (d := (label.record (shares label)).apply d) s!"{label} bridgeBurn") (fun _ _ h => h)
          (fun _ w _ hw => ⟨((CycleLeg.burn label).file txHash).apply
            ((label.record (shares label)).apply d), ⟨rfl, hfiled⟩, hw⟩) fun _ _ _ h => h

theorem runBurnSteps_land (hdest : resolveDestinations cfg = .ok destinations)
    (hshares : splitByBps total cfg.buybackBurnBps cfg.buybackTreasuryBps
      cfg.buybackMasternodeBps = .ok shares)
    (htotal : d.wfairAcquiredWei = some total) (labels : List BurnLabel) :
    (cycleRules cfg).Triple () (AtCycle d legs)
      (runBurnSteps cfg cfg.bridgeEoaAddress destinations shares d labels)
      (fun live w => HasProceeds d.id total live ∧
        AtCycle live ((labels.map CycleLeg.burn).reverse ++ legs) w)
      fun _ w => w.LegsFiled none := by
  induction labels generalizing d legs with
  | nil => exact .pure AtCycle.unmoved.stable fun w _ hw => ⟨⟨rfl, htotal⟩, hw⟩
  | cons label labels ih =>
      refine .bind (runBurnStep_lands hdest hshares htotal label) fun _ => ?_
      refine .bind (reloadCycle_reads (fun _ h => h.1) _) fun live => ?_
      refine .fact (F := HasProceeds d.id total live) (fun w _ hw => hw.1) fun hlive => ?_
      refine Triple.weaken (ih hlive.2) (fun w _ hw => hw.2) (fun live' w _ hw => ?_)
        fun _ _ _ h => h
      rw [List.map_cons, List.reverse_cons, List.append_assoc]
      exact ⟨⟨hw.1.1.trans hlive.1, hw.1.2⟩, hw.2⟩

end Burns

/-- What the swap brought is put on file, unless it is there. -/
theorem acquired_update {n : Int} (hnone : d.wfairAcquiredWei = none)
    (hswap : CycleLeg.swap ∈ legs) :
    (cycleRules cfg).Triple () (AtCycle d legs)
      (BuybackCycle.updateById d.id { wfairAcquiredWei := some n })
      (fun _ => AtSome (HasProceeds d.id n) legs) fun _ w => w.LegsFiled none := by
  refine Triple.weaken (at_update (u := { wfairAcquiredWei := some n })
    (fun leg => leg.hash_apply rfl d) (fun h => h) fun w hi hw => ?_) (fun _ _ h => h)
    (fun _ w _ hw => ⟨BuybackCycleSet.apply { wfairAcquiredWei := some n } d, ⟨rfl, rfl⟩, hw⟩)
    fun _ _ _ h => h
  obtain ⟨h, hfiled, _⟩ := hw.landed _ hswap
  exact (hi.books d.id d hw.row).acquire hw.isOpen hnone
    (Option.isSome_iff_exists.mpr ⟨h, hfiled⟩)

/-- What a run has once the swap of its cycle is settled. -/
def SwapSettled (id : ObjectId) (x : Int × BuybackCycleDoc) (w : World) : Prop :=
  HasProceeds id x.1 x.2 ∧ AtCycle x.2 [.swap] w

theorem reload_swapped {n : Int} {id : ObjectId} (vanished : String) :
    (cycleRules cfg).Triple () (AtSome (HasProceeds id n) [.swap])
      (reloadCycle id vanished >>= fun updated => pure (n, updated)) (SwapSettled id)
      fun _ w => w.LegsFiled none :=
  .bind (reloadCycle_reads (fun _ h => h.1) vanished) fun _ =>
    .pure AtCycle.known.stable fun _ _ h => h

theorem reconcileCycleSwap_lands {h : Hash} (hswap : d.swapTxHash = some h) :
    (cycleRules cfg).Triple () (AtCycle d [])
      (reconcileCycleSwap cfg d cfg.bridgeEoaAddress h) (SwapSettled d.id)
      fun _ w => w.LegsFiled none := by
  refine .bind (awaitSuccess_lands .swap hswap "swap") fun _ => ?_
  refine .bind (M := fun n => AtSome (HasProceeds d.id n) [.swap]) ?_ fun n =>
    reload_swapped "during swap reconcile"
  rw [acquiredOnFile]
  cases hacquired : d.wfairAcquiredWei with
  | some n => exact .pure AtCycle.unmoved.stable fun w _ hw => ⟨d, ⟨rfl, hacquired⟩, hw⟩
  | none =>
      refine .bind (cycle_only (.request trivial) AtCycle.unmoved fun w hw => hw.filed) fun n => ?_
      exact .bind (acquired_update hacquired (List.mem_singleton_self _)) fun _ =>
        .pure AtSome.unmoved.stable fun _ _ h => h

theorem ensureUsdcApproval_beside (admin : Address) (amount : Int) :
    (ensureUsdcApproval cfg admin amount).Only Op.besideCycles := by
  refine .bind (.request trivial) fun allowance => ?_
  split
  · trivial
  · refine .bind (.ofExcept _) fun _ => .bind (.request rfl) fun txHash =>
      .bind (.request trivial) fun receipt => ?_
    split <;> trivial

theorem executeCycleSwap_lands (hnone : d.swapTxHash = none) :
    (cycleRules cfg).Triple () (AtCycle d [])
      (executeCycleSwap cfg d cfg.bridgeEoaAddress) (SwapSettled d.id)
      fun _ w => w.LegsFiled none := by
  have beside {γ : Type} {p : Promise γ} {e : BuybackCycleDoc} {legs : List CycleLeg}
      (h : p.Only Op.besideCycles) : (cycleRules cfg).Triple () (AtCycle e legs) p
        (fun _ => AtCycle e legs) fun _ w => w.LegsFiled none :=
    cycle_only h AtCycle.unmoved fun w hw => hw.filed
  refine .fact (F := d.wfairAcquiredWei = none) (fun w hi hw => ?_) fun hacquired => ?_
  · cases hn : d.wfairAcquiredWei with
    | none => rfl
    | some n =>
        have hswap := (hi.books d.id d hw.row).acquired n hn
        rw [hnone] at hswap
        cases hswap
  have hhash (leg : CycleLeg) :
      leg.hash ({ status := some .swapping : BuybackCycleSet }.apply d) = leg.hash d :=
    leg.hash_apply rfl d
  refine .bind (at_update (u := { status := some .swapping }) hhash (fun _ => rfl)
    fun w hi hw => (hi.books d.id d hw.row).note hhash (fun label => by cases label <;> rfl) rfl
      (by rintro ⟨⟩)) fun _ => ?_
  refine .bind (beside (ensureUsdcApproval_beside _ _)) fun _ => ?_
  refine .bind (beside (.request trivial)) fun wfairBefore => ?_
  refine .bind (M := LegSent ({ status := some .swapping : BuybackCycleSet }.apply d) [] .swap)
    ?_ fun txHash => ?_
  · refine .bind (beside (.request trivial)) fun expectedWfair => ?_
    refine .bind (beside (.ofExcept _)) fun _ => ?_
    exact .call AtCycle.unmoved.stable (.of_rest fun w _ hw => hw.filed)
      (cycle_send .swap hnone trivial) (fun _ => LegSent.unmoved.stable) .rest
  · refine .bind (file_leg .swap) fun _ => ?_
    refine .bind (awaitSuccess_lands .swap rfl "swap") fun _ => ?_
    refine .bind (beside (.request trivial)) fun wfairAfter => ?_
    simp only
    split
    · exact .bind (markFailed_rests _) fun _ => .throw .rest fun _ _ h => h
    · exact .bind (acquired_update hacquired (List.mem_singleton_self _)) fun _ =>
        reload_swapped "after swap"

theorem runSwapStep_lands :
    (cycleRules cfg).Triple () (AtCycle d []) (runSwapStep cfg d cfg.bridgeEoaAddress)
      (SwapSettled d.id) fun _ w => w.LegsFiled none := by
  rw [runSwapStep]
  cases hswap : d.swapTxHash with
  | some h => exact reconcileCycleSwap_lands hswap
  | none => exact executeCycleSwap_lands hswap

/-- The cycle is complete once all three burns have landed on top of the swap. -/
theorem complete_rests (hlegs : ∀ leg : CycleLeg, leg ∈ legs) :
    (cycleRules cfg).Triple () (AtCycle d legs)
      (BuybackCycle.updateById d.id { status := some .complete })
      (fun _ w => w.LegsFiled none) fun _ w => w.LegsFiled none := by
  refine .call AtCycle.unmoved.stable (.of_rest fun w _ hw => hw.filed) (cycle_update
    (Q := fun w => w.LegsFiled none) (fun w hw => ⟨hw.row, hw.isOpen⟩) (fun w hi hw => ⟨?_, ?_⟩)
    (fun _ w hw => hw.filed) fun _ h => h) (fun _ => .rest) .rest
  · exact (hi.books d.id d hw.row).finish fun leg => hw.landed leg (hlegs leg)
  · exact hw.filed.set hw.row
      (fun leg hnone => ⟨(leg.hash_apply rfl d).symm.trans hnone, by rintro ⟨⟩⟩)
      fun _ _ _ => by rintro ⟨⟩

theorem runCycle_lands {destinations : BurnLabel → String}
    (hdest : resolveDestinations cfg = .ok destinations) :
    (cycleRules cfg).Triple () (AtCycle d []) (runCycle cfg cfg.bridgeEoaAddress destinations d)
      (fun _ w => w.LegsFiled none) fun _ w => w.LegsFiled none := by
  rw [runCycle_eq]
  refine .bind runSwapStep_lands fun x => ?_
  refine .fact (F := HasProceeds d.id x.1 x.2) (fun w _ hw => hw.1) fun hx => ?_
  refine Triple.pre (P := AtCycle x.2 [.swap]) ?_ fun w _ hw => hw.2
  refine .bind (M := fun shares w => splitByBps x.1 cfg.buybackBurnBps cfg.buybackTreasuryBps
      cfg.buybackMasternodeBps = .ok shares ∧ AtCycle x.2 [.swap] w)
    (.ofExcept AtCycle.unmoved.stable (fun _ hok w _ hw => ⟨hok, hw⟩) fun w _ hw => hw.filed)
    fun shares => ?_
  refine .fact (fun w _ hw => hw.1) fun hshares => ?_
  refine Triple.pre (P := AtCycle x.2 [.swap]) ?_ fun w _ hw => hw.2
  refine .bind (runBurnSteps_land hdest hshares hx.2 _) fun live => ?_
  refine .fact (F := live.id = d.id) (fun w _ hw => hw.1.1.trans hx.1) fun hlive => ?_
  refine .bind (M := fun _ w => w.LegsFiled none) ?_ fun _ => ?_
  · rw [← hlive]
    refine Triple.pre (complete_rests fun leg => ?_) fun w _ hw => hw.2
    cases leg with
    | swap => decide
    | burn label => cases label <;> decide
  · refine .bind (cycle_rest (.tryCatch (.request trivial) fun _ =>
      alert_only (fun _ => trivial) _)) fun _ => ?_
    exact .call .rest (.of_rest fun _ _ h => h) (cycle_find (fun _ h => h) fun _ h => h)
      (fun _ => .rest) .rest

/-- None of the cycles is open. -/
def World.AllClosed (w : World) : Prop :=
  ∀ id d, w.buybackCycles.get id = some d → d.isOpen = false

theorem AllClosed.unmoved : CycleFact fun w => w.LegsFiled none ∧ w.AllClosed :=
  fun _ _ hsame hw => ⟨hw.1.kept hsame, fun id d hd => hw.2 id d (hsame.cycles ▸ hd)⟩

/-- A new cycle has sent nothing. -/
theorem CycleInv.insert {now : Nat} {amount : Int} (hi : CycleInv cfg w) (hnone : w.AllClosed) :
    CycleInv cfg (w.insertBuybackCycle { triggeredAt := now, usdcAmount := amount }) := by
  have habsent (leg : CycleLeg) := hi.absent w.buybackCycles.nextId leg (Collection.get_nextId _)
  have hget := w.buybackCycles.get_insert w.now { triggeredAt := now, usdcAmount := amount }
  refine ⟨fun id e he => ?_, fun id leg hid => ?_, fun i j d e hd he hdopen heopen => ?_⟩
  · have he := (hget id).symm.trans he
    split at he
    · cases he
      refine ⟨fun leg => ?_, fun leg h hh => ?_, fun n hn => ?_, fun label n hn => ?_,
        fun label tx htx => ?_, fun hc => ?_⟩
      · exact (congrArg List.length (habsent leg)).trans_le (Nat.zero_le 1)
      · cases leg with
        | swap => cases hh
        | burn label => cases label <;> cases hh
      · cases hn
      · cases label <;> cases hn
      · have htx : tx ∈ w.sentFor ((CycleLeg.burn label).purpose w.buybackCycles.nextId) := htx
        rw [habsent] at htx
        cases htx
      · cases hc
    · exact (hi.books id e he).kept (fun _ => rfl) fun _ _ h => h
  · have hid := (hget id).symm.trans hid
    split at hid
    · cases hid
    · exact hi.absent id leg hid
  · have hold : ∀ k f, (w.insertBuybackCycle
        { triggeredAt := now, usdcAmount := amount }).buybackCycles.get k = some f →
        f.isOpen = true → k = w.buybackCycles.nextId := by
      intro k f hf hfopen
      have hf := (hget k).symm.trans hf
      split at hf
      · assumption
      · cases (hnone k f hf).symm.trans hfopen
    rw [hold i d hd hdopen, hold j e he heopen]

theorem create_opens (now : Nat) (amount : Int) :
    (cycleRules cfg).Performs () (fun w => w.LegsFiled none ∧ w.AllClosed)
      (.buybackCycle (.create { triggeredAt := now, usdcAmount := amount }))
      (Answered (fun d => AtCycle d []) fun w => w.LegsFiled none) := by
  refine cycle_performs fun s out r w hi hs _ hans => ?_
  obtain ⟨e, rfl, rfl, rfl⟩ | ⟨x, hx, hout⟩ := answer_cases hans
  · exact ⟨hi, (SameBuybacks.refl _).closed_kept, hs.1⟩
  · cases (BuybackCycle.effect_create none _ s).symm.trans hx
    have hget := s.buybackCycles.get_insert s.now { triggeredAt := now, usdcAmount := amount }
    have hold : ∀ id d, s.buybackCycles.get id = some d →
        (s.insertBuybackCycle { triggeredAt := now, usdcAmount := amount }).buybackCycles.get id =
          some d := by
      intro id d hd
      exact (hget id).trans ((if_neg (Nat.ne_of_lt (Collection.get_lt hd))).trans hd)
    have hfiled : (s.insertBuybackCycle { triggeredAt := now, usdcAmount := amount }).LegsFiled
        none := by
      intro id d leg hd hnone hx
      have hd := (hget id).symm.trans hd
      split at hd
      · rename_i hid
        exact hid ▸ hi.absent s.buybackCycles.nextId leg (Collection.get_nextId _)
      · exact hs.1 id d leg hd hnone hx
    refine ⟨hi.insert hs.2, fun id d hd _ => ⟨hold id d hd, fun _ => rfl⟩, ?_⟩
    obtain ⟨_, rfl⟩ | ⟨_, _, rfl⟩ := hout
    · exact ⟨(hget _).trans (if_pos rfl), rfl, hfiled, fun _ hl => by cases hl⟩
    · exact hfiled

theorem claimOrLoadInFlightCycle_opens (threshold balance : Int) :
    (cycleRules cfg).Triple () (fun w => w.LegsFiled none)
      (claimOrLoadInFlightCycle threshold balance)
      (Found (fun d => AtCycle d []) fun w => w.LegsFiled none) fun _ w => w.LegsFiled none := by
  have hstable (found : Option BuybackCycleDoc) : (cycleRules cfg).Stable ()
      (Found (fun d => AtCycle d []) (fun w => w.LegsFiled none ∧ w.AllClosed) found) := by
    cases found with
    | none => exact AllClosed.unmoved.stable
    | some d => exact AtCycle.unmoved.stable
  refine .bind (.step .rest (fun _ _ h => h) (cycle_find (fun w hw => ?_) fun _ h => h) hstable)
    fun found => ?_
  · cases hpick : pick BuybackCycleDoc.isOpen (some BuybackCycleDoc.createdAt)
      w.buybackCycles.docs with
    | none => exact ⟨hw, fun id d hd => pick_none hpick (Collection.get_mem hd)⟩
    | some d =>
        obtain ⟨hmem, hopen⟩ := pick_some hpick
        exact ⟨Collection.get_of_mem hmem, hopen, hw, fun _ hl => by cases hl⟩
  · cases found with
    | some d => exact .pure AtCycle.unmoved.stable fun _ _ h => h
    | none =>
        simp only
        split
        · exact .pure AllClosed.unmoved.stable fun _ _ h => h.1
        · refine .bind (cycle_only (.request trivial) AllClosed.unmoved fun _ h => h.1)
            fun now => ?_
          refine .bind (.step AllClosed.unmoved.stable (fun _ _ h => h.1) (create_opens now balance)
            fun d => AtCycle.unmoved.stable) fun d => ?_
          exact .pure AtCycle.unmoved.stable fun _ _ h => h

theorem validateDestination_beside (label : BurnLabel) (address : String) :
    (validateDestination label address).Only Op.besideCycles := by
  refine .bind (.tryCatch (.request trivial) fun _ => trivial) fun isvalid => ?_
  split <;> trivial

theorem reportCycleError_rests (cycleId : ObjectId) (err : JsError) :
    (cycleRules cfg).Triple () (fun w => w.LegsFiled none)
      (reportCycleError cfg cycleId err : Promise α) (fun _ w => w.LegsFiled none)
      fun _ w => w.LegsFiled none := by
  refine .bind (.call .rest (.of_rest fun _ _ h => h) (cycle_find (fun _ h => h) fun _ h => h)
    (fun _ => .rest) .rest) fun found => ?_
  cases found with
  | none => exact .throw .rest fun _ _ h => h
  | some refreshed =>
      simp only
      split
      · exact .bind (cycle_rest (alert_only (fun _ => trivial) _)) fun _ =>
          .throw .rest fun _ _ h => h
      · exact .throw .rest fun _ _ h => h

theorem runOneCycle_rests :
    (cycleRules cfg).Triple () (fun w => w.LegsFiled none) (Task.program cfg .runOneCycle)
      (fun _ w => w.LegsFiled none) fun _ w => w.LegsFiled none := by
  refine .bind (M := fun _ w => w.LegsFiled none) ?_ fun _ => .pure .rest fun _ _ h => h
  rw [runOneCycle]
  split
  · exact .pure .rest fun _ _ h => h
  · refine .bind (cycle_rest (.ofExcept _)) fun _ => ?_
    refine .bind (M := fun destinations w => resolveDestinations cfg = .ok destinations ∧
        w.LegsFiled none) (.ofExcept .rest (fun _ hok _ _ h => ⟨hok, h⟩) fun _ _ h => h)
      fun destinations => ?_
    refine .fact (fun _ _ h => h.1) fun hdest => ?_
    refine Triple.pre (P := fun w => w.LegsFiled none) ?_ fun _ _ h => h.2
    refine .bind (cycle_rest (.bind (validateDestination_beside _ _) fun _ =>
      .bind (validateDestination_beside _ _) fun _ => validateDestination_beside _ _)) fun _ => ?_
    refine .bind (cycle_rest (.ofExcept _)) fun threshold => ?_
    refine .bind (cycle_rest (.request trivial)) fun currentUsdc => ?_
    refine .bind (claimOrLoadInFlightCycle_opens _ _) fun found => ?_
    cases found with
    | none => exact .pure .rest fun _ _ h => h
    | some d => exact .tryCatch (runCycle_lands hdest) fun err => reportCycleError_rests _ _

end Outline

/-- No cycle has been started yet. -/
def World.NoCycles (w : World) : Prop :=
  w.buybackCycles.docs = [] ∧ ∀ id (leg : CycleLeg), w.sentFor (leg.purpose id) = []

theorem cycleRules_starts : (cycleRules cfg).Starts := by
  intro i t s hi hs hready
  cases t with
  | runOneCycle => exact runOneCycle_rests s hi hs
  | _ => cases hready

theorem CycleInv.initial (hw : w.NoCycles) : CycleInv cfg w := by
  have hnone : ∀ id d, w.buybackCycles.get id ≠ some d := by
    intro id d hd
    have hmem := Collection.get_mem hd
    rw [hw.1] at hmem
    cases hmem
  exact ⟨fun id d hd => absurd hd (hnone id d), fun id leg _ => hw.2 id leg,
    fun i _ d _ hd => absurd hd (hnone i d)⟩

theorem cycles_good {es : List (Event JsError Unit Task EnvEvent)} {q : Pool Op JsError World Unit}
    (hw : w.NoCycles) (hq : (service cfg buybackRuns).exec (.init w) es = some q) :
    (cycleRules cfg).Good q q.world := by
  obtain ⟨v, hv, _⟩ := Good.exec (R := cycleRules cfg) (fun _ _ _ => trivial) cycleRules_starts
    (.init rfl (.initial hw) fun _ id _ leg _ _ _ => hw.2 id leg) hq
  obtain rfl : v = q.world := hv.world
  exact hv

/-- The three shares make up the whole. -/
theorem splitByBps_sum {total : Int} {burnBps treasuryBps masternodeBps : Nat}
    {shares : BurnLabel → Int}
    (h : splitByBps total burnBps treasuryBps masternodeBps = .ok shares) :
    shares .burn + shares .treasury + shares .masternode = total := by
  simp only [splitByBps] at h
  split at h <;> cases h
  simp only
  omega

/-- In every run at most one cycle is open, and each sends its swap and each of its burns at most
once. Once it is complete, all four have landed, and the burns were of the shares of what the
swap had brought, each for its destination. -/
theorem buyback_cycles_safe (cfg : Config) {w : World}
    {es : List (Event JsError Unit Task EnvEvent)} {q : Pool Op JsError World Unit}
    (hw : w.NoCycles) (hq : (service cfg buybackRuns).exec (.init w) es = some q) :
    (∀ d ∈ q.world.buybackCycles.docs, ∀ e ∈ q.world.buybackCycles.docs,
      d.isOpen = true → e.isOpen = true → d.id = e.id) ∧
    ∀ d ∈ q.world.buybackCycles.docs,
      (∀ leg : CycleLeg, (q.world.sentFor (leg.purpose d.id)).length ≤ 1) ∧
      (d.status = .complete → ∃ total shares destinations, d.wfairAcquiredWei = some total ∧
        shares .burn + shares .treasury + shares .masternode = total ∧
        splitByBps total cfg.buybackBurnBps cfg.buybackTreasuryBps cfg.buybackMasternodeBps =
          .ok shares ∧ resolveDestinations cfg = .ok destinations ∧
        (∃ tx, q.world.sentFor (.cycleSwap d.id) = [tx] ∧ d.swapTxHash = some tx.hash ∧
          q.world.succeeded tx.hash) ∧
        ∀ label, ∃ tx, q.world.sentFor (.cycleBurn d.id label) = [tx] ∧
          d.txHash label = some tx.hash ∧ q.world.succeeded tx.hash ∧
          tx.sender = cfg.bridgeEoaAddress ∧
          tx.call = .bridgeBurn (shares label) (fairAddressToBytes (destinations label))) := by
  have hi : CycleInv cfg q.world := (cycles_good hw hq).inv
  refine ⟨fun d hd e he => hi.single d.id e.id d e (Collection.get_of_mem hd)
    (Collection.get_of_mem he), fun d hd => ?_⟩
  have hb := hi.books d.id d (Collection.get_of_mem hd)
  refine ⟨hb.once, fun hc => ?_⟩
  have hsent : ∀ leg : CycleLeg, ∃ tx, q.world.sentFor (leg.purpose d.id) = [tx] ∧
      leg.hash d = some tx.hash ∧ q.world.succeeded tx.hash := by
    intro leg
    obtain ⟨h, hfiled, hs⟩ := hb.complete hc leg
    obtain ⟨tx, htx, rfl⟩ := hb.filed leg h hfiled
    exact ⟨tx, htx, hfiled, hs⟩
  have hburn : ∀ label, ∃ tx, q.world.sentFor (.cycleBurn d.id label) = [tx] ∧
      d.txHash label = some tx.hash ∧ q.world.succeeded tx.hash ∧
      tx.sender = cfg.bridgeEoaAddress ∧ ∃ n destinations, d.amountWei label = some n ∧
        resolveDestinations cfg = .ok destinations ∧
        tx.call = .bridgeBurn n (fairAddressToBytes (destinations label)) := by
    intro label
    obtain ⟨tx, htx, hfiled, hs⟩ := hsent (.burn label)
    have hmem : tx ∈ q.world.sentFor (.cycleBurn d.id label) :=
      (show q.world.sentFor (.cycleBurn d.id label) = [tx] from htx) ▸ List.mem_singleton_self tx
    obtain ⟨hsender, hcall⟩ := hb.burned label tx hmem
    exact ⟨tx, htx, hfiled, hs, hsender, hcall⟩
  obtain ⟨_, _, _, _, _, n, destinations, hn, hdest, _⟩ := hburn .burn
  obtain ⟨total, shares, htotal, hshares, _⟩ := hb.shares .burn n hn
  refine ⟨total, shares, destinations, htotal, splitByBps_sum hshares, hshares, hdest,
    hsent .swap, fun label => ?_⟩
  obtain ⟨tx, htx, hfiled, hs, hsender, m, destinations', hm, hdest', hcall⟩ := hburn label
  obtain ⟨total', shares', htotal', hshares', rfl⟩ := hb.shares label m hm
  cases htotal.symm.trans htotal'
  cases hshares.symm.trans hshares'
  cases hdest.symm.trans hdest'
  exact ⟨tx, htx, hfiled, hs, hsender, hcall⟩

namespace Sample

/-- A share is recorded, burned and put on file, its burn is mined, and the row read again. -/
def burnLanded (hash : Hash) : List (Event JsError Unit Task EnvEvent) :=
  List.replicate 3 (.step () .done) ++ .env (.foreignReceipt hash ⟨true, 1⟩) ::
    List.replicate 2 (.step () .done)

/-- The run goes on to the end of the cycle. -/
def landedCycle : List (Event JsError Unit Task EnvEvent) :=
  wholeSwap ++ .step () .done :: (burnLanded ⟨1⟩ ++ burnLanded ⟨2⟩ ++ burnLanded ⟨3⟩) ++
    List.replicate 3 (.step () .done)

end Sample

theorem Sample.cycleWorld_noCycles : Sample.cycleWorld.NoCycles := ⟨rfl, fun _ _ => rfl⟩

theorem whole_cycle_burns_shares : ∃ q d total, ∃ shares : BurnLabel → Int,
    ∃ destinations : BurnLabel → String,
    (service Sample.cycleConfig buybackRuns).exec (.init Sample.cycleWorld) Sample.landedCycle =
      some q ∧ d ∈ q.world.buybackCycles.docs ∧ d.status = .complete ∧
    shares .burn + shares .treasury + shares .masternode = total ∧
    ∀ label, ∃ tx, q.world.sentFor (.cycleBurn d.id label) = [tx] ∧
      tx.call = .bridgeBurn (shares label) (fairAddressToBytes (destinations label)) := by
  have h : ((service Sample.cycleConfig buybackRuns).exec (.init Sample.cycleWorld)
      Sample.landedCycle).map (fun q => (q.world.buybackCycles.get 0).map fun d =>
        d.status == .complete) = some (some true) := by
    decide +kernel
  obtain ⟨q, hq, hrow⟩ := Option.map_eq_some_iff.mp h
  obtain ⟨d, hd, hstatus⟩ := Option.map_eq_some_iff.mp hrow
  have hmem := Collection.get_mem hd
  have hc : d.status = .complete := eq_of_beq hstatus
  obtain ⟨_, hall⟩ := buyback_cycles_safe Sample.cycleConfig Sample.cycleWorld_noCycles hq
  obtain ⟨total, shares, destinations, _, hsum, _, _, _, hburns⟩ := (hall d hmem).2 hc
  refine ⟨q, d, total, shares, destinations, hq, hmem, hc, hsum, fun label => ?_⟩
  obtain ⟨tx, htx, _, _, _, hcall⟩ := hburns label
  exact ⟨tx, htx, hcall⟩

/-- A cycle that is complete or failed is never touched again, and nothing is sent for it. -/
theorem closed_cycle_final (cfg : Config) {w : World}
    {es fs : List (Event JsError Unit Task EnvEvent)} {p q : Pool Op JsError World Unit}
    {d : BuybackCycleDoc} (hw : w.NoCycles)
    (hp : (service cfg buybackRuns).exec (.init w) es = some p)
    (hq : (service cfg buybackRuns).exec p fs = some q)
    (hd : d ∈ p.world.buybackCycles.docs) (hclosed : d.isOpen = false) :
    d ∈ q.world.buybackCycles.docs ∧ ∀ leg : CycleLeg,
      q.world.sentFor (leg.purpose d.id) = p.world.sentFor (leg.purpose d.id) := by
  obtain ⟨v, hv, hkept⟩ := Good.exec (R := cycleRules cfg) (fun _ _ _ => trivial) cycleRules_starts
    (cycles_good hw hp) hq
  obtain rfl : v = q.world := hv.world
  obtain ⟨hget, hsent⟩ := hkept d.id d (Collection.get_of_mem hd) hclosed
  exact ⟨Collection.get_mem hget, hsent⟩

/-- The next run starts a cycle of its own. -/
theorem whole_cycle_final : ∃ p q d,
    (service Sample.cycleConfig buybackRuns).exec (.init Sample.cycleWorld) Sample.landedCycle =
      some p ∧ (service Sample.cycleConfig buybackRuns).exec p Sample.swapFiled = some q ∧
    q.world.buybackCycles.docs.length = 2 ∧
    d ∈ p.world.buybackCycles.docs ∧ d ∈ q.world.buybackCycles.docs ∧ d.status = .complete := by
  have h : ((service Sample.cycleConfig buybackRuns).exec (.init Sample.cycleWorld)
      Sample.landedCycle).map (fun p => ((p.world.buybackCycles.get 0).map fun d =>
        d.status == .complete, ((service Sample.cycleConfig buybackRuns).exec p
          Sample.swapFiled).map fun q => q.world.buybackCycles.docs.length)) =
      some (some true, some 2) := by
    decide +kernel
  obtain ⟨p, hp, hpair⟩ := Option.map_eq_some_iff.mp h
  obtain ⟨hrow, hlast⟩ := Prod.mk.inj hpair
  obtain ⟨d, hd, hstatus⟩ := Option.map_eq_some_iff.mp hrow
  obtain ⟨q, hq, hlength⟩ := Option.map_eq_some_iff.mp hlast
  have hc : d.status = .complete := eq_of_beq hstatus
  have hclosed : d.isOpen = false := by rw [BuybackCycleDoc.isOpen, hc]; rfl
  have hkept := (closed_cycle_final Sample.cycleConfig Sample.cycleWorld_noCycles hp hq
    (Collection.get_mem hd) hclosed).1
  exact ⟨p, q, d, hp, hq, hlength, Collection.get_mem hd, hkept, hc⟩

end FairBridge

import FairBridge.Async.History
import FairBridge.Model.Frame
import FairBridge.Guarantees.BuyOrders

/-!
What a cycle records of its swap. A run that swaps records by how much the admin's balance
grew, a run that finds the swap on file records the whole balance, so that what the admin
held before counts as brought by the swap.
-/

namespace FairBridge
open Store Async Async.Rules

/-- The swap of the cycle has been mined. -/
def World.cycleSwapped (w : World) (id : ObjectId) : Bool :=
  (w.sentFor (.cycleSwap id)).any fun tx => (w.base.receipts tx.hash).any Receipt.success

/-- Open, and what its swap brought is not on file. -/
def BuybackCycleDoc.awaitsProceeds (d : BuybackCycleDoc) : Bool :=
  d.isOpen && d.wfairAcquiredWei.isNone

/-- While the cycle awaits its proceeds, the admin holds what it held before, and once the
swap is mined also what the swap credited. -/
def Op.readsHolding (cfg : Config) (id : ObjectId) (before credited : Int) {β : Type} (op : Op β)
    (w : World) : Bool :=
  match op with
  | .wfairBalance owner =>
      !(owner == cfg.bridgeEoaAddress &&
        (w.buybackCycles.get id).any BuybackCycleDoc.awaitsProceeds) ||
      w.base.tokens.wfair owner == before + if w.cycleSwapped id then credited else 0
  | _ => true

/-- The update that puts the hash of a swap on a cycle. -/
def Op.filesCycleSwap {β : Type} : Op β → Bool
  | .buybackCycle (.updateOne _ u) => u.swapTxHash.isSome
  | _ => false

/-- The buy-back worker alone. It may die, and its requests may raise with or without effect,
anywhere but between a swap and the filing of its hash. -/
def cycleRuns (cfg : Config) (id : ObjectId) (before credited : Int) : Faults Unit where
  ready _ _ t := match t with
    | .runOneCycle => true
    | _ => false
  may _ op out w := op.readsHolding cfg id before credited w && match op with
    | .sendWallet _ _ purpose => purpose != .cycleSwap id || !out.isLost
    | op => !op.filesCycleSwap || !out.isFail
  mayKill _ op _ := !op.filesCycleSwap
  row _ := none

/-- A run comes to the cycle when its swap is on file and what it brought is not. -/
def Op.resumesSwap (id : ObjectId) {β : Type} (op : Op β) (w : World) : Bool :=
  match op with
  | .buybackCycle (.findOne filter (some sort)) =>
      (pick filter (some sort) w.buybackCycles.docs).any fun d =>
        d.id == id && d.swapTxHash.isSome && d.wfairAcquiredWei.isNone
  | _ => false

/-- The request leaves alone what the cycle has on file of its swap, and swaps nothing
for it. -/
def Op.sparesSwap (id : ObjectId) {β : Type} : Op β → Prop
  | .buybackCycle (.findOne _ sort) => sort = none
  | .buybackCycle (.find _ _) => True
  | .buybackCycle (.updateOne filter u) =>
      (∀ d : BuybackCycleDoc, d.id = id → filter d = false) ∨
        u.swapTxHash = none ∧ u.wfairAcquiredWei = none
  | .buybackCycle _ => False
  | .sendWallet _ _ purpose => purpose ≠ .cycleSwap id
  | _ => True

variable {id : ObjectId} {before credited : Int} {cfg : Config} {w w' : World}

/-- Nothing has been sent to swap for the cycle. -/
def World.Unswapped (w : World) (id : ObjectId) : Prop := w.sentFor (.cycleSwap id) = []

/-- What is on file of the swap of a cycle: nothing is recorded before it is sent, and what
is recorded is what the swap credited, with what was held before if a run has resumed it. -/
structure ProceedsInv (id : ObjectId) (before credited : Int) (s : World × Bool) : Prop where
  fresh : ∀ d, s.1.buybackCycles.get id = some d → d.swapTxHash = none →
    d.wfairAcquiredWei = none ∧ s.2 = true
  absent : s.1.buybackCycles.get id = none → s.2 = true
  sent : ∀ d h, s.1.buybackCycles.get id = some d → d.swapTxHash = some h →
    ∃ tx ∈ s.1.sentFor (.cycleSwap id), tx.hash = h
  recorded : ∀ d n, s.1.buybackCycles.get id = some d → d.wfairAcquiredWei = some n →
    n = if s.2 then credited else before + credited

/-- What a run leaves behind: a swap that was sent is on file. -/
def SwapOnFile (id : ObjectId) (s : World × Bool) : Prop :=
  (∀ d, s.1.buybackCycles.get id = some d → d.swapTxHash = none) → s.1.Unswapped id

/-- Neither the cycles nor the swaps for this one differ. -/
structure SameSwap (id : ObjectId) (s t : World × Bool) : Prop where
  cycles : t.1.buybackCycles = s.1.buybackCycles
  sent : t.1.sentFor (.cycleSwap id) = s.1.sentFor (.cycleSwap id)
  receipts : ∀ h r, s.1.base.receipts h = some r → t.1.base.receipts h = some r
  met : t.2 = s.2

/-- The cycle keeps what it has on file of its swap. -/
structure SwapKept (id : ObjectId) (w w' : World) : Prop where
  row : ∀ d', w'.buybackCycles.get id = some d' → ∃ d, w.buybackCycles.get id = some d ∧
    d'.swapTxHash = d.swapTxHash ∧ d'.wfairAcquiredWei = d.wfairAcquiredWei
  stays : ∀ d, w.buybackCycles.get id = some d → ∃ d', w'.buybackCycles.get id = some d'
  sent : w'.sentFor (.cycleSwap id) = w.sentFor (.cycleSwap id)

theorem SameSwap.refl (s : World × Bool) : SameSwap id s s := ⟨rfl, rfl, fun _ _ h => h, rfl⟩

theorem SameSwap.trans {s t u : World × Bool} (h : SameSwap id s t) (h' : SameSwap id t u) :
    SameSwap id s u where
  cycles := h'.cycles.trans h.cycles
  sent := h'.sent.trans h.sent
  receipts hash r hr := h'.receipts hash r (h.receipts hash r hr)
  met := h'.met.trans h.met

theorem SameSwap.kept {s t : World × Bool} (h : SameSwap id s t) : SwapKept id s.1 t.1 where
  row d' hd' := ⟨d', h.cycles ▸ hd', rfl, rfl⟩
  stays d hd := ⟨d, h.cycles ▸ hd⟩
  sent := h.sent

theorem ProceedsInv.kept {s : World × Bool} (hi : ProceedsInv id before credited s)
    (h : SwapKept id s.1 w') : ProceedsInv id before credited (w', s.2) where
  fresh d' hd' hnone := by
    obtain ⟨d, hd, hswap, hproceeds⟩ := h.row d' hd'
    rw [hproceeds]
    exact hi.fresh d hd (hswap ▸ hnone)
  absent hnone := by
    refine hi.absent ?_
    cases hd : s.1.buybackCycles.get id with
    | none => rfl
    | some d =>
        obtain ⟨d', hd'⟩ := h.stays d hd
        cases hnone.symm.trans hd'
  sent d' hash hd' hfiled := by
    obtain ⟨d, hd, hswap, _⟩ := h.row d' hd'
    obtain ⟨tx, htx, hhash⟩ := hi.sent d hash hd (hswap ▸ hfiled)
    exact ⟨tx, h.sent ▸ htx, hhash⟩
  recorded d' n hd' hn := by
    obtain ⟨d, hd, _, hproceeds⟩ := h.row d' hd'
    exact hi.recorded d n hd (hproceeds ▸ hn)

theorem SwapOnFile.kept {s : World × Bool} {met : Bool} (hs : SwapOnFile id s)
    (h : SwapKept id s.1 w') : SwapOnFile id (w', met) := by
  intro hnone
  rw [World.Unswapped, h.sent]
  refine hs fun d hd => ?_
  obtain ⟨d', hd'⟩ := h.stays d hd
  obtain ⟨e, he, hswap, _⟩ := h.row d' hd'
  cases hd.symm.trans he
  exact hswap ▸ hnone d' hd'

theorem SwapKept.of_same (hcycles : w'.buybackCycles = w.buybackCycles)
    (hsent : w'.sentFor (.cycleSwap id) = w.sentFor (.cycleSwap id)) : SwapKept id w w' :=
  ⟨fun d' hd' => ⟨d', hcycles ▸ hd', rfl, rfl⟩, fun d hd => ⟨d, hcycles ▸ hd⟩, hsent⟩

theorem SwapKept.of_update {filter : BuybackCycleDoc → Bool} {u : BuybackCycleSet}
    (h : (∀ d : BuybackCycleDoc, d.id = id → filter d = false) ∨
      u.swapTxHash = none ∧ u.wfairAcquiredWei = none) :
    SwapKept id w
      { w with buybackCycles := (w.buybackCycles.update refusals.duplicate filter none u).2 } := by
  obtain ⟨_, hc⟩ | ⟨_, _, _, _, _, hc⟩ | ⟨d, hd, hfilter, _, _, hc⟩ :=
    w.buybackCycles.update_cases refusals.duplicate filter none u
  · exact .of_same (congrArg Prod.snd hc) rfl
  · exact .of_same (congrArg Prod.snd hc) rfl
  · rw [hc]
    cases h with
    | inl hother =>
        have hne : id ≠ buybackCycleSchema.id d := by
          intro heq
          cases hfilter.symm.trans (hother d heq.symm)
        have hsame := Collection.get_modify_other w.buybackCycles u hne
        exact ⟨fun d' hd' => ⟨d', hsame ▸ hd', rfl, rfl⟩, fun d' hd' => ⟨d', hsame.trans hd'⟩, rfl⟩
    | inr hnone =>
        refine ⟨fun d' hd' => ?_, fun e he => ?_, rfl⟩
        · rw [Collection.get_modify] at hd'
          split at hd'
          · obtain ⟨e, he, rfl⟩ := Option.map_eq_some_iff.mp hd'
            rename_i hid
            refine ⟨e, hid ▸ he, ?_⟩
            simp [buybackCycleSchema, BuybackCycleSet.apply, hnone]
          · exact ⟨d', hd', rfl, rfl⟩
        · rw [Collection.get_modify]
          split
          · rename_i hid
            rw [← hid, he]
            exact ⟨_, rfl⟩
          · exact ⟨e, he⟩

theorem SwapKept.of_effect {β : Type} {op : Op β} {row : Option ObjectId} {x : Except JsError β}
    (hop : op.sparesSwap id) (h : effect row op w = some (x, w')) : SwapKept id w w' := by
  by_cases hcycles : op.part = .buybackCycles
  · cases op with
    | buybackCycle q =>
        cases h
        cases q with
        | findOne _ _ => exact .of_same rfl rfl
        | find _ limit => cases limit <;> exact .of_same rfl rfl
        | updateOne filter u => exact .of_update hop
        | findOneAndUpdate _ _ _ | create _ => cases hop
    | _ => cases hcycles
  · by_cases hwallets : op.part = .wallets
    · cases op with
      | sendWallet sender c purpose =>
          obtain ⟨_, _, rfl⟩ | ⟨_, rfl, _⟩ := effect_sendWallet h
          · exact .of_same rfl rfl
          · exact .of_same rfl (w.sentFor_sendWallet_other sender c hop)
      | _ => cases hwallets
    · have hframe := effect_frame h
      refine .of_same (hframe.buybackCycles hcycles) ?_
      rw [World.sentFor, World.sentFor, hframe.walletTxs hwallets]

/-- The record of a call is no part of a cycle. -/
theorem recordCall_swap {β : Type} (op : Op β) (s : World × Bool) :
    SameSwap id s (recordCall op s.1, s.2) := by
  cases op <;> exact ⟨rfl, rfl, fun _ _ h => h, rfl⟩

/-- The service, with the record of whether no run has resumed the swap. -/
def swapping (cfg : Config) (id : ObjectId) (before credited : Int) :
    System Op JsError (World × Bool) Unit Task EnvEvent :=
  (service cfg (cycleRuns cfg id before credited)).recorded fun op _ w met =>
    met && !op.resumesSwap id w

def proceedsRules (cfg : Config) (id : ObjectId) (before credited : Int) :
    Rules (swapping cfg id before credited) (World × Bool) where
  world s := s
  inv := ProceedsInv id before credited
  rely _ := SameSwap id
  guar _ _ _ := True
  rest _ := SwapOnFile id
  hist _ _ := True
  rely_refl _ := .refl
  rely_trans := .trans
  guar_refl _ _ := trivial
  guar_rely hij _ _ _ := absurd rfl hij
  rest_stable _ _ h hs := hs.kept h.kept
  hist_refl _ := trivial
  hist_trans _ _ := trivial
  guar_hist _ _ _ := trivial
  env_step {e s w} hi he := by
    obtain ⟨v, hv, rfl⟩ := Option.map_eq_some_iff.mp he
    have hsame := EnvEvent.occur_surroundings (service_env hv).2
    have hsent : v.sentFor (.cycleSwap id) = s.1.sentFor (.cycleSwap id) := by
      rw [World.sentFor, World.sentFor, hsame.walletTxs]
    have hrely : SameSwap id s (v, s.2) := ⟨hsame.buybackCycles, hsent, hsame.receipts, rfl⟩
    exact ⟨(v, s.2), rfl, hi.kept hrely.kept, trivial, fun _ => hrely⟩

section Outline
variable {α β : Type} {op : Op β} {P : World × Bool → Prop}
  {M : Except JsError β → World × Bool → Prop}

/-- What is known of the cycle's swap, whatever else happens. -/
def Steadfast (id : ObjectId) (P : World × Bool → Prop) : Prop :=
  ∀ s t, SameSwap id s t → P s → P t

theorem Steadfast.stable (hP : Steadfast id P) :
    (proceedsRules cfg id before credited).Stable () P :=
  fun s t _ _ hst hs => hP s t hst hs

theorem proceeds_performs
    (h : ∀ s out r w, ProceedsInv id before credited s → P s →
      (cycleRuns cfg id before credited).may () op out s.1 = true →
      answer none op out s.1 = some (r, w) →
      ProceedsInv id before credited (w, s.2 && !op.resumesSwap id s.1) ∧
        M r (w, s.2 && !op.resumesSwap id s.1)) :
    (proceedsRules cfg id before credited).Performs () P op M := by
  intro s out r t hi hs _ hmay hans
  obtain ⟨⟨x, w⟩, hw, rfl, rfl⟩ := Option.map_eq_some_iff.mp hans
  simp only [swapping, System.recorded, service, Bool.and_eq_true] at hmay
  obtain ⟨hinv, hM⟩ := h s out x w hi hs hmay.2 hw
  exact ⟨_, rfl, hinv, trivial, hM⟩

/-- A request that is no read of the open cycle leaves the record as it is. -/
theorem Op.sparesSwap.unresumed (hop : op.sparesSwap id) (met : Bool) :
    (met && !op.resumesSwap id w) = met := by
  cases op with
  | buybackCycle q =>
      cases q with
      | findOne filter sort =>
          cases sort with
          | none => exact Bool.and_true met
          | some _ => cases hop
      | _ => exact Bool.and_true met
  | _ => exact Bool.and_true met

/-- A request that spares the swap changes nothing a run leaves behind. -/
theorem proceeds_spared (hop : op.sparesSwap id) :
    (proceedsRules cfg id before credited).Performs () (SwapOnFile id) op
      fun _ => SwapOnFile id := by
  refine proceeds_performs fun s out r w hi hs _ hans => ?_
  rw [hop.unresumed]
  have hrec : SameSwap id s (recordCall op s.1, s.2) := recordCall_swap op s
  obtain ⟨_, _, _, rfl⟩ | ⟨x, hx, _⟩ := answer_cases hans
  · exact ⟨hi.kept hrec.kept, hs.kept hrec.kept⟩
  · have hkept : SwapKept id (recordCall op s.1) w := .of_effect hop hx
    have hcalled : SwapOnFile id (recordCall op s.1, s.2) := hs.kept hrec.kept
    exact ⟨(hi.kept hrec.kept).kept hkept, hcalled.kept hkept⟩

theorem proceeds_only {p : Promise α} (h : p.Only fun op => op.sparesSwap id) :
    (proceedsRules cfg id before credited).Triple () (SwapOnFile id) p
      (fun _ => SwapOnFile id) fun _ => SwapOnFile id :=
  .harmless h .rest (fun _ _ h => h) fun _ hop => proceeds_spared hop

/-- A request that touches neither the cycles nor the swap. -/
def Op.besideSwap (id : ObjectId) {β : Type} (op : Op β) : Prop :=
  op.part ≠ .buybackCycles ∧ op.sparesSwap id

/-- Such a request answers what it finds, and what is known stays known. -/
theorem proceeds_beside {N : β → World × Bool → Prop} (hop : op.besideSwap id)
    (hP : Steadfast id P)
    (hN : ∀ s a w, ProceedsInv id before credited s → P s →
      op.readsHolding cfg id before credited s.1 = true →
      effect none op (recordCall op s.1) = some (.ok a, w) → N a (w, s.2)) :
    (proceedsRules cfg id before credited).Performs () P op
      (Answered (fun a s => P s ∧ N a s) P) := by
  refine proceeds_performs fun s out r w hi hs hmay hans => ?_
  rw [hop.2.unresumed]
  have hrec : SameSwap id s (recordCall op s.1, s.2) := recordCall_swap op s
  have hmay : op.readsHolding cfg id before credited s.1 = true := by
    simp only [cycleRuns, Bool.and_eq_true] at hmay
    exact hmay.1
  obtain ⟨_, _, rfl, rfl⟩ | ⟨x, hx, hout⟩ := answer_cases hans
  · exact ⟨hi.kept hrec.kept, hP _ _ hrec hs⟩
  · have hkept : SwapKept id (recordCall op s.1) w := .of_effect hop.2 hx
    have hsame : SameSwap id (recordCall op s.1, s.2) (w, s.2) :=
      ⟨(effect_frame hx).buybackCycles hop.1, hkept.sent, fun h r hr => effect_receipts hx ▸ hr, rfl⟩
    refine ⟨(hi.kept hrec.kept).kept hkept, ?_⟩
    have hPw := hP _ _ hsame (hP _ _ hrec hs)
    obtain ⟨_, rfl⟩ | ⟨_, _, rfl⟩ := hout
    · cases r with
      | error _ => exact hPw
      | ok a => exact ⟨hPw, hN s a w hi hs hmay hx⟩
    · exact hPw

/-- Open, with that hash on file and nothing recorded of what the swap brought. -/
structure AwaitsProceeds (id : ObjectId) (hash : Option Hash) (met : Bool) (s : World × Bool) :
    Prop where
  row : ∃ d, s.1.buybackCycles.get id = some d ∧ d.awaitsProceeds = true ∧ d.swapTxHash = hash
  met : s.2 = met

theorem AwaitsProceeds.steadfast {hash : Option Hash} {met : Bool} :
    Steadfast id (AwaitsProceeds id hash met) := by
  intro s t hst h
  obtain ⟨d, hd, hawaits⟩ := h.row
  exact ⟨⟨d, hst.cycles ▸ hd, hawaits⟩, hst.met.trans h.met⟩

theorem AwaitsProceeds.on_file {h : Hash} {met : Bool} {s : World × Bool}
    (hs : AwaitsProceeds id (some h) met s) : SwapOnFile id s := by
  intro hnone
  obtain ⟨d, hd, _, hfiled⟩ := hs.row
  cases hfiled.symm.trans (hnone d hd)

/-- Nothing is swapped yet. -/
def BeforeSwap (id : ObjectId) (s : World × Bool) : Prop :=
  AwaitsProceeds id none true s ∧ s.1.Unswapped id

/-- The swap is sent, and its hash is to be put on file. -/
def SwapSent (id : ObjectId) (h : Hash) (s : World × Bool) : Prop :=
  AwaitsProceeds id none true s ∧ ∃ tx ∈ s.1.sentFor (.cycleSwap id), tx.hash = h

/-- The swap is on file and mined. -/
def SwapMined (id : ObjectId) (h : Hash) (met : Bool) (s : World × Bool) : Prop :=
  AwaitsProceeds id (some h) met s ∧ s.1.cycleSwapped id = true

theorem BeforeSwap.steadfast : Steadfast id (BeforeSwap id) :=
  fun s t hst h => ⟨AwaitsProceeds.steadfast s t hst h.1, hst.sent.trans h.2⟩

theorem SwapSent.steadfast {h : Hash} : Steadfast id (SwapSent id h) := by
  intro s t hst hs
  obtain ⟨tx, htx, hhash⟩ := hs.2
  exact ⟨AwaitsProceeds.steadfast s t hst hs.1, tx, hst.sent ▸ htx, hhash⟩

theorem SwapMined.steadfast {h : Hash} {met : Bool} : Steadfast id (SwapMined id h met) := by
  intro s t hst hs
  refine ⟨AwaitsProceeds.steadfast s t hst hs.1, ?_⟩
  obtain ⟨tx, htx, hmined⟩ := List.any_eq_true.mp hs.2
  obtain ⟨r, hr, hgood⟩ := (Option.any_eq_true _ _).mp hmined
  refine List.any_eq_true.mpr ⟨tx, hst.sent ▸ htx, (Option.any_eq_true _ _).mpr ⟨r, ?_, hgood⟩⟩
  exact hst.receipts tx.hash r hr

theorem BeforeSwap.on_file {s : World × Bool} (h : BeforeSwap id s) : SwapOnFile id s :=
  fun _ => h.2

theorem BeforeSwap.not_swapped {s : World × Bool} (h : BeforeSwap id s) :
    s.1.cycleSwapped id = false := by
  have hnone : s.1.sentFor (.cycleSwap id) = [] := h.2
  rw [World.cycleSwapped, hnone]
  rfl

/-- What the admin holds is read while the cycle awaits its proceeds. -/
theorem holding_read {swapped : Bool} (hP : Steadfast id P)
    (hfile : ∀ s, P s → SwapOnFile id s)
    (hrow : ∀ s, P s → (s.1.buybackCycles.get id).any BuybackCycleDoc.awaitsProceeds = true)
    (hswapped : ∀ s, P s → s.1.cycleSwapped id = swapped) :
    (proceedsRules cfg id before credited).Triple () P (call (.wfairBalance cfg.bridgeEoaAddress))
      (fun n s => P s ∧ n = before + if swapped then credited else 0)
      fun _ => SwapOnFile id := by
  refine Triple.weaken (.call hP.stable (.of_rest fun s _ h => hfile s h)
    (proceeds_beside (N := fun n _ => n = before + if swapped then credited else 0)
      ⟨by rintro ⟨⟩, trivial⟩ hP ?_) (fun n s t _ _ hst h => ⟨hP s t hst h.1, h.2⟩) hP.stable)
    (fun _ _ h => h) (fun _ _ _ h => h) fun _ s _ h => hfile s h
  intro s n w _ hs hholds hx
  cases hx
  have hheld : s.1.base.tokens.wfair cfg.bridgeEoaAddress =
      before + if swapped then credited else 0 := by
    simpa [Op.readsHolding, hrow s hs, hswapped s hs] using hholds
  exact hheld

theorem AwaitsProceeds.any {hash : Option Hash} {met : Bool} {s : World × Bool}
    (h : AwaitsProceeds id hash met s) :
    (s.1.buybackCycles.get id).any BuybackCycleDoc.awaitsProceeds = true := by
  obtain ⟨d, hd, hawaits, _⟩ := h.row
  rw [hd]
  exact hawaits

/-- An update of the cycle that leaves its swap on file. -/
theorem proceeds_update {u : BuybackCycleSet} {Q : World × Bool → Prop}
    (h : ∀ s, ProceedsInv id before credited s → P s →
      ProceedsInv id before credited (s.1.setBuybackCycle id u, s.2) ∧
        Q (s.1.setBuybackCycle id u, s.2))
    (hP : u.swapTxHash.isSome = false → ∀ s, P s → SwapOnFile id s)
    (hQ : ∀ s, Q s → SwapOnFile id s) :
    (proceedsRules cfg id before credited).Performs () P
      (.buybackCycle (.updateOne (fun d => d.id == id && true) u))
      (Answered (fun _ => Q) (SwapOnFile id)) := by
  refine proceeds_performs fun s out r w hi hs hmay hans => ?_
  have hsame : (s.2 && !(.buybackCycle (.updateOne (fun d => d.id == id && true) u) :
      Op Unit).resumesSwap id s.1) = s.2 := Bool.and_true s.2
  rw [hsame]
  obtain ⟨e, rfl, rfl, rfl⟩ | ⟨x, hx, hout⟩ := answer_cases hans
  · refine ⟨hi, hP ?_ s hs⟩
    simp only [cycleRuns, Bool.and_eq_true, Bool.or_eq_true, Op.filesCycleSwap] at hmay
    exact Bool.not_eq_true' _ ▸ hmay.2.resolve_right (by simp [Outcome.isFail])
  · cases (BuybackCycle.effect_updateById none id u s.1).symm.trans hx
    obtain ⟨hinv, hq⟩ := h s hi hs
    obtain ⟨_, rfl⟩ | ⟨_, _, rfl⟩ := hout
    · exact ⟨hinv, hq⟩
    · exact ⟨hinv, hQ _ hq⟩

theorem markFailed_spares (cycleId : ObjectId) (message : String) :
    (markFailed cfg cycleId message).Only fun op => op.sparesSwap id :=
  .bind (.request (.inr ⟨rfl, rfl⟩)) fun _ => alert_only (fun _ => trivial) _

theorem awaitSuccess_spares (cycleId : ObjectId) (what : String) (txHash : Hash) :
    (awaitSuccess cfg cycleId what txHash).Only fun op => op.sparesSwap id := by
  refine .bind (.request trivial) fun receipt => ?_
  split
  · trivial
  · exact .bind (markFailed_spares _ _) fun _ => trivial

theorem reloadCycle_spares (cycleId : ObjectId) (vanished : String) :
    (reloadCycle cycleId vanished).Only fun op => op.sparesSwap id := by
  refine .bind (.request rfl) fun found => ?_
  cases found <;> trivial

/-- Once its receipt is good the swap is mined. -/
theorem awaitSuccess_proceeds (h : Hash) (met : Bool) :
    (proceedsRules cfg id before credited).Triple () (AwaitsProceeds id (some h) met)
      (awaitSuccess cfg id "swap" h) (fun _ => SwapMined id h met) fun _ => SwapOnFile id := by
  have hstable (r : Receipt) : Steadfast id fun s =>
      AwaitsProceeds id (some h) met s ∧ s.1.base.receipts h = some r :=
    fun s t hst hs => ⟨AwaitsProceeds.steadfast s t hst hs.1, hst.receipts h r hs.2⟩
  refine .bind (M := fun r s => AwaitsProceeds id (some h) met s ∧ s.1.base.receipts h = some r)
    ?_ fun receipt => ?_
  · refine Triple.weaken (.call AwaitsProceeds.steadfast.stable (.of_rest fun s _ h => h.on_file)
      (proceeds_beside ⟨by rintro ⟨⟩, trivial⟩ AwaitsProceeds.steadfast ?_)
      (fun r => (hstable r).stable) AwaitsProceeds.steadfast.stable) (fun _ _ h => h)
      (fun _ _ _ h => h) fun _ s _ h => h.on_file
    intro s r w _ _ _ hx
    obtain ⟨a, ha, hr⟩ := Option.map_eq_some_iff.mp hx
    cases hr
    exact ha
  · split
    · rename_i hgood
      refine .pure (hstable receipt).stable fun s hi hs => ⟨hs.1, ?_⟩
      obtain ⟨d, hd, _, hfiled⟩ := hs.1.row
      obtain ⟨tx, htx, hhash⟩ := hi.sent d h hd hfiled
      refine List.any_eq_true.mpr ⟨tx, htx, ?_⟩
      rw [hhash, hs.2]
      exact hgood
    · refine Triple.pre (P := SwapOnFile id) ?_ fun s _ hs => hs.1.on_file
      exact .bind (proceeds_only (markFailed_spares _ _)) fun _ => .throw .rest fun _ _ h => h

/-- The proceeds are recorded as what was read says. -/
theorem record_proceeds {h : Hash} {met : Bool} {n : Int}
    (hn : n = if met then credited else before + credited) :
    (proceedsRules cfg id before credited).Performs () (AwaitsProceeds id (some h) met)
      (.buybackCycle (.updateOne (fun d => d.id == id && true) { wfairAcquiredWei := some n }))
      (Answered (fun _ => SwapOnFile id) (SwapOnFile id)) := by
  refine proceeds_update (fun s hi hs => ?_) (fun _ s hs => hs.on_file) fun _ h => h
  obtain ⟨d, hd, _, hfiled⟩ := hs.row
  have hset := World.get_setBuybackCycle hd { wfairAcquiredWei := some n }
  have hrow : ∀ d', (s.1.setBuybackCycle id { wfairAcquiredWei := some n }).buybackCycles.get id =
      some d' → d'.swapTxHash = some h ∧ d'.wfairAcquiredWei = some n := by
    intro d' hd'
    cases hset.symm.trans hd'
    exact ⟨by simp [BuybackCycleSet.apply, hfiled], rfl⟩
  refine ⟨⟨?_, ?_, ?_, ?_⟩, ?_⟩
  · intro d' hd' hnone
    cases hnone.symm.trans (hrow d' hd').1
  · intro hnone
    cases hnone.symm.trans hset
  · intro d' hash hd' hhash
    cases (hrow d' hd').1.symm.trans hhash
    exact hi.sent d h hd hfiled
  · intro d' m hd' hm
    cases (hrow d' hd').2.symm.trans hm
    rw [hn, hs.met]
  · intro hnone
    cases (hnone _ hset).symm.trans (hrow _ hset).1

/-- A run that resumes the swap takes the whole holding for its proceeds. -/
theorem reconcileCycleSwap_proceeds (cycle : BuybackCycleDoc) (h : Hash) (hid : cycle.id = id)
    (hnone : cycle.wfairAcquiredWei = none) :
    (proceedsRules cfg id before credited).Triple () (AwaitsProceeds id (some h) false)
      (reconcileCycleSwap cfg cycle cfg.bridgeEoaAddress h) (fun _ => SwapOnFile id)
      fun _ => SwapOnFile id := by
  subst hid
  refine .bind (awaitSuccess_proceeds h false) fun _ => ?_
  rw [acquiredOnFile, hnone]
  refine .bind (M := fun _ => SwapOnFile cycle.id) ?_ fun _ =>
    .bind (proceeds_only (reloadCycle_spares _ _)) fun _ => .pure .rest fun _ _ h => h
  refine .bind (holding_read SwapMined.steadfast (fun s hs => hs.1.on_file) (fun s hs => hs.1.any)
    fun s hs => hs.2) fun n => ?_
  refine .fact (F := n = before + credited) (fun s _ hs => hs.2) fun hn => ?_
  refine Triple.pre (P := AwaitsProceeds cycle.id (some h) false) ?_ fun s _ hs => hs.1.1
  refine .bind (.call AwaitsProceeds.steadfast.stable (.of_rest fun s _ hs => hs.on_file)
    (record_proceeds hn) (fun _ => .rest) .rest) fun _ => .pure .rest fun _ _ h => h

/-- The run is at the swap of a cycle: it sets its status, sends, and files the hash. -/
theorem status_proceeds :
    (proceedsRules cfg id before credited).Performs () (BeforeSwap id)
      (.buybackCycle (.updateOne (fun d => d.id == id && true) { status := some .swapping }))
      (Answered (fun _ => BeforeSwap id) (SwapOnFile id)) := by
  refine proceeds_update (fun s hi hs => ?_) (fun _ s hs => hs.on_file) fun s hs => hs.on_file
  obtain ⟨d, hd, hawaits, hswap⟩ := hs.1.row
  have hset := World.get_setBuybackCycle hd { status := some .swapping }
  have hop : Op.sparesSwap id (.buybackCycle (.updateOne (fun d => d.id == id && true)
      { status := some .swapping })) := .inr ⟨rfl, rfl⟩
  refine ⟨hi.kept (.of_effect hop (BuybackCycle.effect_updateById none id _ s.1)), ⟨⟨_, hset, ?_, ?_⟩, hs.1.met⟩, hs.2⟩
  · simp only [BuybackCycleDoc.awaitsProceeds, Bool.and_eq_true] at hawaits ⊢
    exact ⟨rfl, hawaits.2⟩
  · simp [BuybackCycleSet.apply, hswap]

theorem send_proceeds (admin : Address) (c : WalletCall) :
    (proceedsRules cfg id before credited).Performs () (BeforeSwap id)
      (.sendWallet admin c (.cycleSwap id)) (Answered (SwapSent id) (SwapOnFile id)) := by
  refine proceeds_performs fun s out r w hi hs hmay hans => ?_
  have hsame : (s.2 && !(.sendWallet admin c (.cycleSwap id) : Op Hash).resumesSwap id s.1) =
      s.2 := Bool.and_true s.2
  rw [hsame]
  obtain ⟨e, rfl, rfl, rfl⟩ | ⟨x, hx, hout⟩ := answer_cases hans
  · exact ⟨hi, hs.on_file⟩
  · obtain ⟨e, rfl, rfl⟩ | ⟨rfl, rfl, _⟩ := effect_sendWallet hx
    · refine ⟨hi, ?_⟩
      obtain ⟨_, rfl⟩ | ⟨_, _, rfl⟩ := hout <;> exact hs.on_file
    · obtain ⟨d, hd, hawaits, hswap⟩ := hs.1.row
      have hrow : ∀ d', s.1.buybackCycles.get id = some d' → d' = d :=
        fun d' hd' => Option.some.inj (hd'.symm.trans hd)
      refine ⟨⟨hi.fresh, hi.absent, fun d' h hd' hfiled => ?_, hi.recorded⟩, ?_⟩
      · rw [hrow d' hd', hswap] at hfiled
        cases hfiled
      · obtain ⟨_, rfl⟩ | ⟨_, rfl, _⟩ := hout
        · have hsent := s.1.sentFor_sendWallet admin c (p := .cycleSwap id) hs.2
          exact ⟨⟨⟨d, hd, hawaits, hswap⟩, hs.1.met⟩, _, hsent ▸ List.mem_singleton_self _, rfl⟩
        · simp [cycleRuns, Outcome.isLost] at hmay

theorem file_proceeds (h : Hash) :
    (proceedsRules cfg id before credited).Performs () (SwapSent id h)
      (.buybackCycle (.updateOne (fun d => d.id == id && true) { swapTxHash := some h }))
      (Answered (fun _ => AwaitsProceeds id (some h) true) (SwapOnFile id)) := by
  refine proceeds_update (fun s hi hs => ?_) (by rintro ⟨⟩) fun s hs => hs.on_file
  obtain ⟨d, hd, hawaits, hswap⟩ := hs.1.row
  have hset := World.get_setBuybackCycle hd { swapTxHash := some h }
  have hnone : d.wfairAcquiredWei = none := (hi.fresh d hd hswap).1
  refine ⟨⟨?_, ?_, ?_, ?_⟩, ⟨_, hset, hawaits, rfl⟩, hs.1.met⟩
  · intro d' hd' hfresh
    cases hset.symm.trans hd'
    cases hfresh
  · exact fun _ => hs.1.met
  · intro d' hash hd' hfiled
    cases hset.symm.trans hd'
    cases hfiled
    exact hs.2
  · intro d' n hd' hn
    cases hset.symm.trans hd'
    simp only [BuybackCycleSet.apply, hnone] at hn
    cases hn

theorem landSetup_besides (sender : Address) (setup : WalletCall) (reverted : Hash → String) :
    (landSetup sender setup reverted).Only fun op => op.besideSwap id := by
  refine .bind (.request ⟨by rintro ⟨⟩, by rintro ⟨⟩⟩) fun txHash =>
    .bind (.request ⟨by rintro ⟨⟩, trivial⟩) fun receipt => ?_
  split <;> trivial

theorem ensureUsdcApproval_besides (admin : Address) (amount : Int) :
    (ensureUsdcApproval cfg admin amount).Only fun op => op.besideSwap id := by
  refine .bind (.request ⟨by rintro ⟨⟩, trivial⟩) fun allowance => ?_
  split
  · trivial
  · exact .bind (.ofExcept _) fun _ => landSetup_besides _ _ _

/-- Requests beside the swap leave a run where it was before it. -/
theorem before_only {p : Promise α} (h : p.Only fun op => op.besideSwap id) :
    (proceedsRules cfg id before credited).Triple () (BeforeSwap id) p
      (fun _ => BeforeSwap id) fun _ => SwapOnFile id := by
  refine Triple.weaken (.harmless h BeforeSwap.steadfast.stable (fun s _ hs => hs.on_file)
    fun op hop => (proceeds_beside (N := fun _ _ => True) hop BeforeSwap.steadfast
      fun _ _ _ _ _ _ _ => trivial).post ?_)
    (fun _ _ h => h) (fun _ _ _ h => h) fun _ s _ hs => hs.on_file
  intro r s _ hr
  cases r with
  | ok _ => exact hr.1
  | error _ => exact hr

/-- A run that swaps records by how much the holding grew. -/
theorem executeCycleSwap_proceeds (cycle : BuybackCycleDoc) (hid : cycle.id = id) :
    (proceedsRules cfg id before credited).Triple () (BeforeSwap id)
      (executeCycleSwap cfg cycle cfg.bridgeEoaAddress) (fun _ => SwapOnFile id)
      fun _ => SwapOnFile id := by
  subst hid
  refine .bind (.call BeforeSwap.steadfast.stable (.of_rest fun s _ hs => hs.on_file)
    status_proceeds (fun _ => BeforeSwap.steadfast.stable) .rest) fun _ => ?_
  refine .bind (before_only (ensureUsdcApproval_besides _ _)) fun _ => ?_
  refine .bind (holding_read BeforeSwap.steadfast (fun s hs => hs.on_file) (fun s hs => hs.1.any)
    fun s hs => hs.not_swapped) fun wfairBefore => ?_
  refine .fact (F := wfairBefore = before) (fun s _ hs => by simpa using hs.2) fun hbefore => ?_
  refine Triple.pre (P := BeforeSwap cycle.id) ?_ fun s _ hs => hs.1
  refine .bind (M := SwapSent cycle.id) ?_ fun txHash => ?_
  · refine .bind (before_only (.request ⟨by rintro ⟨⟩, trivial⟩)) fun expectedWfair => ?_
    refine .bind (before_only (.ofExcept _)) fun _ => ?_
    exact .call BeforeSwap.steadfast.stable (.of_rest fun s _ hs => hs.on_file)
      (send_proceeds _ _) (fun _ => SwapSent.steadfast.stable) .rest
  · refine .bind (.call SwapSent.steadfast.stable (fun _ _ _ hkill => by cases hkill)
      (file_proceeds txHash) (fun _ => AwaitsProceeds.steadfast.stable) .rest) fun _ => ?_
    refine .bind (awaitSuccess_proceeds txHash true) fun _ => ?_
    refine .bind (holding_read SwapMined.steadfast (fun s hs => hs.1.on_file)
      (fun s hs => hs.1.any) fun s hs => hs.2) fun wfairAfter => ?_
    refine .fact (F := wfairAfter = before + credited) (fun s _ hs => hs.2) fun hafter => ?_
    refine Triple.pre (P := AwaitsProceeds cycle.id (some txHash) true) ?_ fun s _ hs => hs.1.1
    have hgrown : wfairAfter - wfairBefore = credited := by omega
    simp only
    split
    · refine Triple.pre (P := SwapOnFile cycle.id) ?_ fun s _ hs => hs.on_file
      exact .bind (proceeds_only (markFailed_spares _ _)) fun _ => .throw .rest fun _ _ h => h
    · refine .bind (.call AwaitsProceeds.steadfast.stable (.of_rest fun s _ hs => hs.on_file)
        (record_proceeds (by simpa using hgrown)) (fun _ => .rest) .rest) fun _ => ?_
      exact .bind (proceeds_only (reloadCycle_spares _ _)) fun _ => .pure .rest fun _ _ h => h

/-- An update of another cycle. -/
theorem updateById_spares {cycleId : ObjectId} (h : cycleId ≠ id) (u : BuybackCycleSet) :
    (BuybackCycle.updateById cycleId u).Only fun op => op.sparesSwap id := by
  refine .request (.inl fun d hd => ?_)
  simp [hd, Ne.symm h]

theorem acquiredOnFile_spares {cycle : BuybackCycleDoc}
    (h : cycle.id ≠ id ∨ cycle.wfairAcquiredWei.isSome = true) (admin : Address) :
    (acquiredOnFile cycle admin).Only fun op => op.sparesSwap id := by
  rw [acquiredOnFile]
  split
  · trivial
  · rename_i hnone
    refine .bind (.request trivial) fun n => .bind (updateById_spares (h.resolve_right ?_) _)
      fun _ => trivial
    simp [hnone]

theorem reconcileCycleSwap_spares {cycle : BuybackCycleDoc}
    (h : cycle.id ≠ id ∨ cycle.wfairAcquiredWei.isSome = true) (admin : Address) (txHash : Hash) :
    (reconcileCycleSwap cfg cycle admin txHash).Only fun op => op.sparesSwap id :=
  .bind (awaitSuccess_spares _ _ _) fun _ => .bind (acquiredOnFile_spares h admin) fun _ =>
    .bind (reloadCycle_spares _ _) fun _ => trivial

theorem executeCycleSwap_spares {cycle : BuybackCycleDoc} (h : cycle.id ≠ id)
    (admin : Address) : (executeCycleSwap cfg cycle admin).Only fun op => op.sparesSwap id := by
  refine .bind (updateById_spares h _) fun _ => ?_
  refine .bind ((ensureUsdcApproval_besides admin _).mono fun op hop => hop.2) fun _ => ?_
  refine .bind (.request trivial) fun wfairBefore => .bind ?_ fun txHash => ?_
  · exact .bind (.request trivial) fun _ => .bind (.ofExcept _) fun _ =>
      .request fun hsame => h (by cases hsame; rfl)
  · refine .bind (updateById_spares h _) fun _ => .bind (awaitSuccess_spares _ _ _) fun _ => ?_
    refine .bind (.request trivial) fun wfairAfter => ?_
    simp only
    split
    · exact .bind (markFailed_spares _ _) fun _ => trivial
    · exact .bind (updateById_spares h _) fun _ => .bind (reloadCycle_spares _ _) fun _ => trivial

theorem runBurnStep_spares (admin : Address) (cycle : BuybackCycleDoc) (label : BurnLabel)
    (destination : String) (amount : Int) :
    (runBurnStep cfg admin cycle label destination amount).Only fun op => op.sparesSwap id := by
  rw [runBurnStep]
  split
  · exact awaitSuccess_spares _ _ _
  · refine .bind (.request (.inr (by cases label <;> exact ⟨rfl, rfl⟩))) fun _ => ?_
    refine .bind (.bind (.ofExcept _) fun _ => .request (by rintro ⟨⟩)) fun txHash => ?_
    exact .bind (.request (.inr (by cases label <;> exact ⟨rfl, rfl⟩))) fun _ =>
      awaitSuccess_spares _ _ _

theorem runBurnSteps_spares (admin : Address) (destinations : BurnLabel → String)
    (shares : BurnLabel → Int) (cycle : BuybackCycleDoc) (labels : List BurnLabel) :
    (runBurnSteps cfg admin destinations shares cycle labels).Only
      fun op => op.sparesSwap id := by
  induction labels generalizing cycle with
  | nil => trivial
  | cons label labels ih =>
      exact .bind (runBurnStep_spares _ _ _ _ _) fun _ => .bind (reloadCycle_spares _ _) fun _ =>
        ih _

theorem reportCycleError_spares (cycleId : ObjectId) (err : JsError) :
    (reportCycleError cfg cycleId err : Promise α).Only fun op => op.sparesSwap id := by
  refine .bind (.request rfl) fun found => ?_
  cases found with
  | none => trivial
  | some refreshed =>
      simp only
      split
      · exact .bind (alert_only (fun _ => trivial) _) fun _ => trivial
      · trivial

/-- The cycle a run goes on with. If it is this one the run has it as it is on file, and if
its swap is on file without what it brought, the run has been seen to resume it. -/
def LoadedCycle (id : ObjectId) (cycle : BuybackCycleDoc) (s : World × Bool) : Prop :=
  SwapOnFile id s ∧ (cycle.id = id →
    s.1.buybackCycles.get id = some cycle ∧ cycle.isOpen = true ∧
      (cycle.swapTxHash.isSome = true → cycle.wfairAcquiredWei = none → s.2 = false))

theorem LoadedCycle.steadfast {cycle : BuybackCycleDoc} :
    Steadfast id (LoadedCycle id cycle) := by
  intro s t hst hs
  refine ⟨hs.1.kept hst.kept, fun hid => ?_⟩
  obtain ⟨hrow, hopen, hresumed⟩ := hs.2 hid
  exact ⟨hst.cycles ▸ hrow, hopen, fun hfiled hnone => hst.met.trans (hresumed hfiled hnone)⟩

theorem runSwapStep_proceeds (cycle : BuybackCycleDoc) :
    (proceedsRules cfg id before credited).Triple () (LoadedCycle id cycle)
      (runSwapStep cfg cycle cfg.bridgeEoaAddress) (fun _ => SwapOnFile id)
      fun _ => SwapOnFile id := by
  rw [runSwapStep]
  by_cases hid : cycle.id = id
  · cases hswap : cycle.swapTxHash with
    | some h =>
        cases hproceeds : cycle.wfairAcquiredWei with
        | some n =>
            refine Triple.pre (proceeds_only (reconcileCycleSwap_spares (.inr ?_) _ h))
              fun s _ hs => hs.1
            rw [hproceeds]
            rfl
        | none =>
            refine Triple.pre (reconcileCycleSwap_proceeds cycle h hid hproceeds)
              fun s _ hs => ?_
            obtain ⟨hrow, hopen, hresumed⟩ := hs.2 hid
            refine ⟨⟨cycle, hrow, ?_, hswap⟩, hresumed (by rw [hswap]; rfl) hproceeds⟩
            rw [BuybackCycleDoc.awaitsProceeds, hopen, hproceeds]
            rfl
    | none =>
        refine Triple.pre (executeCycleSwap_proceeds cycle hid) fun s hi hs => ?_
        obtain ⟨hrow, hopen, _⟩ := hs.2 hid
        obtain ⟨hproceeds, hmet⟩ := hi.fresh cycle hrow hswap
        refine ⟨⟨⟨cycle, hrow, ?_, hswap⟩, hmet⟩, hs.1 fun d hd => ?_⟩
        · rw [BuybackCycleDoc.awaitsProceeds, hopen, hproceeds]
          rfl
        · cases hrow.symm.trans hd
          exact hswap
  · refine Triple.pre (proceeds_only ?_) fun s _ hs => hs.1
    split
    · exact reconcileCycleSwap_spares (.inl hid) _ _
    · exact executeCycleSwap_spares hid _

theorem runCycle_proceeds (destinations : BurnLabel → String) (cycle : BuybackCycleDoc) :
    (proceedsRules cfg id before credited).Triple () (LoadedCycle id cycle)
      (runCycle cfg cfg.bridgeEoaAddress destinations cycle) (fun _ => SwapOnFile id)
      fun _ => SwapOnFile id := by
  refine .bind (runSwapStep_proceeds cycle) fun acquired => proceeds_only ?_
  refine .bind (.ofExcept _) fun shares => .bind (runBurnSteps_spares _ _ _ _ _) fun live => ?_
  refine .bind (.request (.inr ⟨rfl, rfl⟩)) fun _ => ?_
  exact .bind (.tryCatch (.request trivial) fun _ => alert_only (fun _ => trivial) _) fun _ =>
    .request rfl

/-- A run that resumes the swap finds its hash on file, and nothing recorded. -/
theorem Op.resumesSwap_row (h : op.resumesSwap id w = true) :
    ∃ d, w.buybackCycles.get id = some d ∧ d.swapTxHash.isSome = true ∧
      d.wfairAcquiredWei = none := by
  cases op with
  | buybackCycle q =>
      cases q with
      | findOne filter sort =>
          cases sort with
          | none => cases h
          | some sort =>
              simp only [resumesSwap] at h
              obtain ⟨d, hd, hrow⟩ := (Option.any_eq_true _ _).mp h
              simp only [Bool.and_eq_true, beq_iff_eq, Option.isNone_iff_eq_none] at hrow
              have hget : w.buybackCycles.get (buybackCycleSchema.id d) = some d :=
                Collection.get_of_mem (pick_some hd).1
              exact ⟨d, hrow.1.1 ▸ hget, hrow.1.2, hrow.2⟩
      | _ => cases h
  | _ => cases h

theorem ProceedsInv.noted {s : World × Bool} (hi : ProceedsInv id before credited s) :
    ProceedsInv id before credited (s.1, s.2 && !op.resumesSwap id s.1) := by
  cases hres : op.resumesSwap id s.1 with
  | false =>
      rw [Bool.not_false, Bool.and_true]
      exact hi
  | true =>
      obtain ⟨e, he, hfiled, hnone⟩ := Op.resumesSwap_row hres
      have hrow : ∀ d, s.1.buybackCycles.get id = some d → d = e :=
        fun d hd => Option.some.inj (hd.symm.trans he)
      refine ⟨fun d hd hfresh => ?_, fun habsent => ?_, hi.sent, fun d n hd hn => ?_⟩
      · rw [← hrow d hd, hfresh] at hfiled
        cases hfiled
      · cases habsent.symm.trans he
      · rw [hrow d hd, hnone] at hn
        cases hn

/-- The open cycle is loaded as it is on file. -/
theorem load_proceeds :
    (proceedsRules cfg id before credited).Performs () (SwapOnFile id)
      (.buybackCycle (.findOne BuybackCycleDoc.isOpen (some BuybackCycleDoc.createdAt)))
      (Answered (Found (LoadedCycle id) (SwapOnFile id)) (SwapOnFile id)) := by
  refine proceeds_performs fun s out r w hi hs _ hans => ?_
  obtain ⟨e, rfl, rfl, rfl⟩ | ⟨x, hx, hout⟩ := answer_cases hans
  · exact ⟨hi.noted, hs⟩
  · cases hx
    refine ⟨hi.noted, ?_⟩
    obtain ⟨_, rfl⟩ | ⟨_, _, rfl⟩ := hout
    · cases hpick : pick BuybackCycleDoc.isOpen (some BuybackCycleDoc.createdAt)
        s.1.buybackCycles.docs with
      | none =>
          simp only [recordCall, Query.run, hpick]
          exact hs
      | some cycle =>
          simp only [recordCall, Query.run, hpick]
          obtain ⟨hmem, hopen⟩ := pick_some hpick
          refine ⟨hs, fun hid => ⟨?_, hopen, fun hfiled hnone => ?_⟩⟩
          · rw [← hid]
            exact Collection.get_of_mem hmem
          · simp [Op.resumesSwap, hpick, hid, hfiled, hnone]
    · exact hs

/-- A new cycle has swapped nothing. -/
theorem create_proceeds (doc : BuybackCycleDoc) (hswap : doc.swapTxHash = none)
    (hproceeds : doc.wfairAcquiredWei = none) (hopen : doc.isOpen = true) :
    (proceedsRules cfg id before credited).Performs () (SwapOnFile id)
      (.buybackCycle (.create doc)) (Answered (LoadedCycle id) (SwapOnFile id)) := by
  refine proceeds_performs fun s out r w hi hs _ hans => ?_
  have hsame : (s.2 && !(.buybackCycle (.create doc) : Op BuybackCycleDoc).resumesSwap id s.1) =
      s.2 := Bool.and_true s.2
  rw [hsame]
  obtain ⟨e, rfl, rfl, rfl⟩ | ⟨x, hx, hout⟩ := answer_cases hans
  · exact ⟨hi, hs⟩
  · cases (BuybackCycle.effect_create none doc s.1).symm.trans hx
    have hget : ∀ i, (s.1.insertBuybackCycle doc).buybackCycles.get i =
        if i = s.1.buybackCycles.nextId then
          some { doc with id := s.1.buybackCycles.nextId, createdAt := s.1.now }
        else s.1.buybackCycles.get i := s.1.buybackCycles.get_insert s.1.now doc
    by_cases hid : s.1.buybackCycles.nextId = id
    · subst hid
      have habsent := Collection.get_nextId s.1.buybackCycles
      have hnew := (hget s.1.buybackCycles.nextId).trans (if_pos rfl)
      have hunswapped : s.1.Unswapped s.1.buybackCycles.nextId :=
        hs fun d hd => by cases habsent.symm.trans hd
      have hfile : SwapOnFile s.1.buybackCycles.nextId (s.1.insertBuybackCycle doc, s.2) :=
        fun _ => hunswapped
      refine ⟨⟨fun d hd _ => ?_, fun _ => hi.absent habsent, fun d h hd hfiled => ?_,
        fun d n hd hn => ?_⟩, ?_⟩
      · cases hnew.symm.trans hd
        exact ⟨hproceeds, hi.absent habsent⟩
      · cases hnew.symm.trans hd
        cases hswap.symm.trans hfiled
      · cases hnew.symm.trans hd
        cases hproceeds.symm.trans hn
      · obtain ⟨_, rfl⟩ | ⟨_, _, rfl⟩ := hout
        · refine ⟨hfile, fun _ => ⟨hnew, hopen, fun hfiled _ => ?_⟩⟩
          rw [hswap] at hfiled
          cases hfiled
        · exact hfile
    · have hold := (hget id).trans (if_neg (Ne.symm hid))
      have hkept : SwapKept id s.1 (s.1.insertBuybackCycle doc) :=
        ⟨fun d hd => ⟨d, hold ▸ hd, rfl, rfl⟩, fun d hd => ⟨d, hold.trans hd⟩, rfl⟩
      refine ⟨hi.kept hkept, ?_⟩
      obtain ⟨_, rfl⟩ | ⟨_, _, rfl⟩ := hout
      · exact ⟨hs.kept hkept, fun heq => absurd heq hid⟩
      · exact hs.kept hkept

theorem claimOrLoadInFlightCycle_proceeds (threshold balance : Int) :
    (proceedsRules cfg id before credited).Triple () (SwapOnFile id)
      (claimOrLoadInFlightCycle threshold balance)
      (Found (LoadedCycle id) (SwapOnFile id)) fun _ => SwapOnFile id := by
  have hstable (found : Option BuybackCycleDoc) : (proceedsRules cfg id before credited).Stable ()
      (Found (LoadedCycle id) (SwapOnFile id) found) := by
    cases found with
    | none => exact .rest
    | some cycle => exact LoadedCycle.steadfast.stable
  refine .bind (.step .rest (fun _ _ h => h) load_proceeds hstable) fun found => ?_
  cases found with
  | some cycle => exact .pure LoadedCycle.steadfast.stable fun _ _ h => h
  | none =>
      simp only
      split
      · exact .pure .rest fun _ _ h => h
      · refine .bind (proceeds_only (.request trivial)) fun now => ?_
        refine .bind (.step .rest (fun _ _ h => h) (create_proceeds _ rfl rfl rfl)
          fun _ => LoadedCycle.steadfast.stable) fun cycle => ?_
        exact .pure LoadedCycle.steadfast.stable fun _ _ h => h

theorem validateDestination_spares (label : BurnLabel) (address : String) :
    (validateDestination label address).Only fun op => op.sparesSwap id := by
  refine .bind (.tryCatch (.request trivial) fun _ => trivial) fun isvalid => ?_
  split <;> trivial

theorem runOneCycle_proceeds :
    (proceedsRules cfg id before credited).Triple () (SwapOnFile id)
      (Task.program cfg .runOneCycle) (fun _ => SwapOnFile id) fun _ => SwapOnFile id := by
  refine .bind (M := fun _ => SwapOnFile id) ?_ fun _ => .pure .rest fun _ _ h => h
  rw [runOneCycle]
  split
  · exact .pure .rest fun _ _ h => h
  · refine .bind (proceeds_only (.ofExcept _)) fun _ => ?_
    refine .bind (proceeds_only (.ofExcept _)) fun destinations => ?_
    refine .bind (proceeds_only (.bind (validateDestination_spares _ _) fun _ =>
      .bind (validateDestination_spares _ _) fun _ => validateDestination_spares _ _)) fun _ => ?_
    refine .bind (proceeds_only (.ofExcept _)) fun threshold => ?_
    refine .bind (proceeds_only (.request trivial)) fun currentUsdc => ?_
    refine .bind (claimOrLoadInFlightCycle_proceeds _ _) fun found => ?_
    cases found with
    | none => exact .pure .rest fun _ _ h => h
    | some cycle =>
        exact .tryCatch (runCycle_proceeds destinations cycle) fun err =>
          proceeds_only (reportCycleError_spares _ _)

end Outline

/-- The cycle has swapped nothing, or is not there yet. -/
def World.FreshCycle (w : World) (id : ObjectId) : Prop :=
  w.Unswapped id ∧ ∀ d, w.buybackCycles.get id = some d →
    d.swapTxHash = none ∧ d.wfairAcquiredWei = none

/-- What is recorded for a cycle is what its swap credited if and only if the admin held
nothing before, or no run had to resume the swap. -/
theorem recorded_proceeds_iff (cfg : Config) {id : ObjectId} {before credited n : Int} {w : World}
    {es : List (Event JsError Unit Task EnvEvent)} {q : Pool Op JsError World Unit}
    {d : BuybackCycleDoc} (hw : w.FreshCycle id)
    (hq : (service cfg (cycleRuns cfg id before credited)).exec (.init w) es = some q)
    (hd : q.world.buybackCycles.get id = some d) (hn : d.wfairAcquiredWei = some n) :
    n = credited ↔ before = 0 ∨ (service cfg (cycleRuns cfg id before credited)).meets
      (fun _ op w => !op.resumesSwap id w) (.init w) es = true := by
  have hrun := System.exec_recorded_meets (c := fun op w => !op.resumesSwap id w) hq true
  have hstarts : (proceedsRules cfg id before credited).Starts := by
    intro i t s hi hs hready
    cases t with
    | runOneCycle => exact runOneCycle_proceeds s hi hs
    | _ => cases hready
  have hinv : ProceedsInv id before credited (w, true) :=
    ⟨fun d hd _ => ⟨(hw.2 d hd).2, rfl⟩, fun _ => rfl,
      fun d h hd hfiled => (by cases (hw.2 d hd).1.symm.trans hfiled),
      fun d n hd hn => (by cases (hw.2 d hd).2.symm.trans hn)⟩
  obtain ⟨s, hs, _⟩ := Good.exec (R := proceedsRules cfg id before credited) (fun _ _ _ => trivial)
    hstarts (.init rfl hinv fun _ _ => hw.1) hrun
  have hworld : s = (q.world, true && _) := hs.world
  have hrecorded := hs.inv.recorded d n (by rw [hworld]; exact hd) hn
  rw [hworld, Bool.true_and] at hrecorded
  rw [hrecorded]
  cases (service cfg (cycleRuns cfg id before credited)).meets
      (fun _ op w => !op.resumesSwap id w) (.init w) es with
  | true => simp
  | false => simp

namespace Sample

def cycleConfig : Config :=
  { config with
    buybackEnabled := true
    fairTreasuryAddress := some "fTreasury"
    fairMasternodeRewardAddress := some "fMasternodes" }

/-- The admin holds 200 USDC, an allowance for it, and so much WFAIR. -/
def holding (wfair : Int) : TokenState where
  usdc := fun _ => 200000000
  allowance := fun _ => 200000000
  quote := fun _ => some 1000
  wfair := fun _ => wfair

def cycleWorld : World where
  base := { tokens := holding 70 }

/-- A run up to the filing of its swap, and the swap, which credits 1000. -/
def swapFiled : List (Event JsError Unit Task EnvEvent) :=
  .start () .runOneCycle :: List.replicate 13 (.step () .done)

def swapMined : List (Event JsError Unit Task EnvEvent) :=
  [.env (.foreignReceipt ⟨0⟩ ⟨true, 1⟩), .env (.market (holding 1070))]

/-- The run goes on to the recording of what the swap brought. -/
def wholeSwap : List (Event JsError Unit Task EnvEvent) :=
  swapFiled ++ swapMined ++ List.replicate 3 (.step () .done)

/-- The run dies while it waits for the receipt, and another takes its place. -/
def resumedSwap : List (Event JsError Unit Task EnvEvent) :=
  swapFiled ++ .kill () :: swapMined ++
    .start () .runOneCycle :: List.replicate 8 (.step () .done)

end Sample

theorem Sample.cycleWorld_fresh : Sample.cycleWorld.FreshCycle 0 := ⟨rfl, by rintro d ⟨⟩⟩

theorem whole_swap_records_credit : ∃ q d n,
    (service Sample.cycleConfig (cycleRuns Sample.cycleConfig 0 70 1000)).exec
      (.init Sample.cycleWorld) Sample.wholeSwap = some q ∧
    q.world.buybackCycles.get 0 = some d ∧ d.wfairAcquiredWei = some n ∧ n = 1000 := by
  have h : ((service Sample.cycleConfig (cycleRuns Sample.cycleConfig 0 70 1000)).exec
      (.init Sample.cycleWorld) Sample.wholeSwap).map (fun q =>
        (q.world.buybackCycles.get 0).map fun d => d.wfairAcquiredWei.isSome) =
      some (some true) := by
    decide +kernel
  obtain ⟨q, hq, hrow⟩ := Option.map_eq_some_iff.mp h
  obtain ⟨d, hd, hsome⟩ := Option.map_eq_some_iff.mp hrow
  obtain ⟨n, hn⟩ := Option.isSome_iff_exists.mp hsome
  exact ⟨q, d, n, hq, hd, hn, (recorded_proceeds_iff Sample.cycleConfig Sample.cycleWorld_fresh hq
    hd hn).mpr (Or.inr (by decide +kernel))⟩

/-- The admin held 70 before, and they are recorded as brought by the swap. -/
theorem resumed_swap_records_holding : ∃ q d,
    (service Sample.cycleConfig (cycleRuns Sample.cycleConfig 0 70 1000)).exec
      (.init Sample.cycleWorld) Sample.resumedSwap = some q ∧
    q.world.buybackCycles.get 0 = some d ∧ d.wfairAcquiredWei = some 1070 := by
  have h : ((service Sample.cycleConfig (cycleRuns Sample.cycleConfig 0 70 1000)).exec
      (.init Sample.cycleWorld) Sample.resumedSwap).map (fun q =>
        (q.world.buybackCycles.get 0).map BuybackCycleDoc.wfairAcquiredWei) =
      some (some (some 1070)) := by
    decide +kernel
  obtain ⟨q, hq, hrow⟩ := Option.map_eq_some_iff.mp h
  obtain ⟨d, hd, hn⟩ := Option.map_eq_some_iff.mp hrow
  exact ⟨q, d, hq, hd, hn⟩

end FairBridge

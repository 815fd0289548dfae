import FairBridge.Ledger.Chains
import FairBridge.Ledger.Mints
import FairBridge.Ledger.Scans

/-!
The cap on everything minted. The supply and the sum of what is in flight are
read one after the other. A deposit that is mined and settled between the two is
in neither; as long as that does not happen, supply and pending deposits together
stay within the cap.
-/

namespace FairBridge
open Store Async Async.Rules

inductive CapSlot where
  | watcher
  | mint (depositId : ObjectId)
  deriving DecidableEq

/-- One watcher, whose requests may raise and whose runs may die, and for each
row one attempt of a queued job at a time. -/
def capFaults : Faults CapSlot where
  ready w i t := match i, t with
    | .watcher, .processBlock _ _ => true
    | .mint id, .signMint .directEoa job =>
        job.depositId == id && w.mintQueue.any fun j => decide (j.data = job)
    | _, _ => false
  may i op out _ := match i with
    | .watcher => true
    | .mint _ => mintMay op out
  mayKill i op _ := match i with
    | .watcher => true
    | .mint _ => !op.filesMintHash
  row i := match i with
    | .watcher => none
    | .mint id => some id

/-- The in-flight sum is the only one over DETECTED rows. -/
def Op.sumsInFlight {β : Type} : Op β → Bool
  | .deposit (.find filter none) =>
      filter { baseAddress := ⟨0⟩, fairAddress := "", hdIndex := 0, status := .detected }
  | _ => false

/-- A mint of the row is among those mined since the supply was read, and the row
is settled. -/
def DepositDoc.settledSince (hs : List Hash) (d : DepositDoc) : Bool :=
  d.status == .minted && d.baseMintTxHash.any fun h => hs.contains h

/-- The in-flight sum is not read after the supply if a row was mined and settled
in between. -/
def noneSettledBetween {β : Type} (_ : CapSlot) (op : Op β) (w : World) : Bool :=
  !op.sumsInFlight || match w.minedSinceRead with
    | some hs => w.deposits.docs.all fun d => !d.settledSince hs
    | none => true

def World.tvlWei (w : World) : Int := w.base.totalSupply + w.pendingWei

/-- No deposit is in flight, and no mint is on its way. -/
structure Idle (w : World) : Prop where
  rows : ∀ d ∈ w.deposits.docs,
    d.status = .awaiting ∧ d.fairTxid = none ∧ d.baseMintTxHash = none ∨
      d.status = .minted ∨ d.status = .failed
  jobs : ∀ j ∈ w.mintQueue, ∃ d, w.deposits.get j.data.depositId = some d ∧
    (d.status = .minted ∨ d.status = .failed)
  txs : w.base.txs = []

/-- What holds throughout. -/
structure CapBooks (cap : Int) (w : World) : Prop where
  books : DepositBooks w
  awaiting : ∀ j d, w.deposits.get j = some d → d.isOpen = true → d.status = .awaiting
  capped : w.tvlWei ≤ cap

/-- What the watcher may count on. -/
structure ScanRely (w w' : World) : Prop where
  intents : ∀ id d, w.deposits.get id = some d → d.isOpen = true →
    w'.deposits.get id = some d
  jobs : ∀ job d, MintJobOf w job d → ∃ e, MintJobOf w' job e
  tvl : w'.tvlWei ≤ w.tvlWei
  pending : w'.pendingWei ≤ w.pendingWei
  reads : ∀ n, SupplyRead n w → SupplyRead n w'

section Books
variable {cap : Int} {w w' : World} {d : DepositDoc}

theorem Idle.books (h : Idle w) : DepositBooks w := by
  have hmints : ∀ id, w.mintsOf id = [] := by
    intro id
    rw [World.mintsOf, h.txs, List.filter_nil]
  refine ⟨?_, ?_, by simp [h.txs], by simp [h.txs]⟩
  · intro id d hd
    rw [hmints]
    cases h.rows d (Collection.get_mem hd) with
    | inl hr => exact .intent (by simp [DepositDoc.isOpen, hr.1]) hr.2.1 hr.2.2 rfl
    | inr hr =>
        cases hr with
        | inl hr => exact .minted hr (by intro _ htx; cases htx)
        | inr hr => exact .failed hr (by intro _ htx; cases htx)
  · intro j hj
    obtain ⟨d, hd, hst⟩ := h.jobs j hj
    refine ⟨d, hd, ?_, ?_⟩
    · cases hst with
      | inl hst => simp [DepositDoc.isOpen, hst]
      | inr hst => simp [DepositDoc.isOpen, hst]
    · intro hlive
      cases hst with
      | inl hst => simp [DepositDoc.live, hst] at hlive
      | inr hst => simp [DepositDoc.live, hst] at hlive

theorem Idle.pendingWei (h : Idle w) : w.pendingWei = 0 := by
  have hzero : w.deposits.docs.map w.unmintedWei = w.deposits.docs.map fun _ => 0 := by
    refine List.map_congr_left fun d hd => World.unmintedWei_settled ?_
    cases h.rows d hd with
    | inl hr => simp [DepositDoc.live, hr.1]
    | inr hr =>
        cases hr with
        | inl hr => simp [DepositDoc.live, hr]
        | inr hr => simp [DepositDoc.live, hr]
  rw [World.pendingWei, hzero]
  simp

theorem ScanRely.refl (w : World) : ScanRely w w :=
  ⟨fun _ _ h _ => h, fun _ d h => ⟨d, h⟩, Int.le_refl _, Int.le_refl _, fun _ h => h⟩

theorem ScanRely.trans {w'' : World} (h : ScanRely w w') (h' : ScanRely w' w'') :
    ScanRely w w'' where
  intents id d hd ho := h'.intents id d (h.intents id d hd ho) ho
  jobs job d hd := by
    obtain ⟨e, he⟩ := h.jobs job d hd
    exact h'.jobs job e he
  tvl := h'.tvl.trans h.tvl
  pending := h'.pending.trans h.pending
  reads n hn := h'.reads n (h.reads n hn)

theorem MintEffect.scanRely {id : ObjectId} (h : MintEffect id w w') : ScanRely w w' where
  intents j d hd ho := by
    obtain ⟨e, he, _, _, _, _, hed⟩ := h.rows j d hd
    rw [he, hed (Or.inr ho)]
  jobs _ _ hd := h.job hd
  tvl := by
    have hs := h.totalSupply
    have hp := h.pending
    simp only [World.tvlWei]
    omega
  pending := h.pending
  reads n hn := by
    obtain ⟨hs, hsome, hle⟩ := hn
    have hm := h.mined hs
    have ht := h.totalSupply
    exact ⟨hs, h.minedSinceRead.trans hsome, by omega⟩

theorem EnvEffect.scanRely {e : EnvEvent} (h : EnvEffect e.burned w w')
    (hs : Surroundings w w') (hpos : 0 ≤ e.burned) : ScanRely w w' where
  intents id d hd _ := hs.deposits id d hd
  jobs job d hd := ⟨d, hs.deposits _ d hd.row, hd.matched, hd.amount⟩
  tvl := by
    have hsup := h.supply
    simp only [World.tvlWei]
    omega
  pending := h.pending
  reads := h.reads

theorem EnvEvent.burned_nonneg (e : EnvEvent) : 0 ≤ e.burned := by
  cases e with
  | baseBlock logs => exact FairBridge.burned_nonneg logs
  | _ => exact Int.le_refl 0

theorem Surroundings.undisturbed (hs : Surroundings w w') (id : ObjectId) :
    RowUndisturbed id w w' where
  row d hd _ := hs.deposits id d hd
  mints := by rw [World.mintsOf, hs.txs, World.mintsOf]
  receipts := hs.receipts

theorem CapBooks.occur {e : EnvEvent} (hb : CapBooks cap w) (h : e.occur w = some w') :
    CapBooks cap w' := by
  have heff := EnvEffect.occur hb.books h
  have hs := EnvEvent.occur_surroundings h
  refine ⟨heff.books, ?_, ?_⟩
  · intro j d hd ho
    cases hold : w.deposits.get j with
    | none => exact (EnvEvent.occur_new h hold hd).1
    | some d₀ =>
        cases (hs.deposits j d₀ hold).symm.trans hd
        exact hb.awaiting j d hold ho
  · exact (heff.scanRely hs e.burned_nonneg).tvl.trans hb.capped

theorem CapBooks.mint {id : ObjectId} (hb : CapBooks cap w) (h : MintEffect id w w') :
    CapBooks cap w' :=
  ⟨h.books, fun j e he ho => hb.awaiting j e (h.intents j e he ho) ho,
    h.scanRely.tvl.trans hb.capped⟩

theorem CapBooks.scan {added : Int} (hb : CapBooks cap w) (h : ScanEffect added w w')
    (hroom : w.tvlWei + added ≤ cap) : CapBooks cap w' := by
  refine ⟨h.books, fun j e he ho => hb.awaiting j e (h.intents j e he ho) ho, ?_⟩
  have hs := h.totalSupply
  have hp := h.pending
  simp only [World.tvlWei] at *
  omega

/-- A row that is in the air or not sent yet counts in full as in flight. -/
theorem CapBooks.unminted_le (hb : CapBooks cap w) (hd : d ∈ w.deposits.docs) :
    w.unmintedWei d ≤ if inFlightDeposit d = true then d.amountWei else 0 := by
  have hget : w.deposits.get d.id = some d := Collection.get_of_mem hd
  cases hl : d.live with
  | true =>
      have hin : inFlightDeposit d = true := by
        rw [DepositDoc.live_iff] at hl
        cases hl with
        | inl h => simp [inFlightDeposit, h]
        | inr h => simp [inFlightDeposit, h]
      rw [if_pos hin]
      cases (hb.books.phase _ _ hget).of_live hl with
      | inl h => rw [World.unmintedWei_none hl h.2]
      | inr h =>
          obtain ⟨_, _, _, _, hpos, _⟩ := h
          rw [World.unmintedWei]
          split <;> omega
  | false =>
      rw [World.unmintedWei_settled hl]
      split
      · rename_i hin
        have hst : d.status = .detected := by
          simp only [inFlightDeposit, Bool.or_eq_true, beq_iff_eq] at hin
          have hn : ¬ (d.status = .confirmed ∨ d.status = .minting) := by
            rw [← DepositDoc.live_iff, hl]
            decide
          tauto
        have hawait := hb.awaiting _ _ hget (by simp [DepositDoc.isOpen, hst])
        rw [hst] at hawait
        cases hawait
      · exact Int.le_refl 0

/-- What was minted of a row since the supply was read is in the in-flight sum, or
the row is settled. -/
theorem CapBooks.mined_le (hb : CapBooks cap w) {hs : List Hash}
    (hd : d ∈ w.deposits.docs) (hnot : d.settledSince hs = false) :
    w.minedWei hs d + w.unmintedWei d ≤ if inFlightDeposit d = true then d.amountWei else 0 := by
  have hget : w.deposits.get d.id = some d := Collection.get_of_mem hd
  cases hby : w.mintedBy hs d.id with
  | false =>
      have hzero : w.minedWei hs d = 0 := by simp [World.minedWei, hby]
      have hle := hb.unminted_le hd
      omega
  | true =>
      obtain ⟨tx, htx, hmined⟩ := List.any_eq_true.mp hby
      rw [Bool.and_eq_true] at hmined
      have hmined' : w.minedWei hs d = d.amountWei := by simp [World.minedWei, hby]
      cases hb.books.phase _ _ hget with
      | intent _ _ _ hm | unsent _ _ hm =>
          rw [hm] at htx
          cases htx
      | sent _ hst _ _ _ _ =>
          have hfor : w.mintedFor d.id = true := List.any_eq_true.mpr ⟨tx, htx, hmined.2⟩
          have hin : inFlightDeposit d = true := by simp [inFlightDeposit, hst]
          have hzero : w.unmintedWei d = 0 := by simp [World.unmintedWei, hfor]
          rw [if_pos hin]
          omega
      | minted hst hm =>
          have hin : d.settledSince hs = true := by
            rw [DepositDoc.settledSince, hst, (hm tx htx).1]
            simpa using hmined.1
          rw [hnot] at hin
          cases hin
      | failed _ hm =>
          obtain ⟨r, hr, hf⟩ := hm tx htx
          have hsucc := hmined.2
          rw [hr] at hsucc
          simp [hf] at hsucc

theorem World.inFlightWei_eq (w : World) : w.inFlightWei =
    (w.deposits.docs.map fun d => if inFlightDeposit d = true then d.amountWei else 0).sum :=
  Collection.sum_filter inFlightDeposit DepositDoc.amountWei w.deposits.docs

theorem CapBooks.pending_le (hb : CapBooks cap w) : w.pendingWei ≤ w.inFlightWei := by
  rw [World.inFlightWei_eq]
  exact List.sum_le_sum fun d hd => hb.unminted_le hd

theorem CapBooks.read_le (hb : CapBooks cap w) {hs : List Hash}
    (hnot : ∀ d ∈ w.deposits.docs, d.settledSince hs = false) :
    w.minedSinceWei hs + w.pendingWei ≤ w.inFlightWei := by
  rw [World.inFlightWei_eq, World.minedSinceWei, World.pendingWei, ← List.sum_map_add]
  exact List.sum_le_sum fun d hd => hb.mined_le hd (hnot d hd)

end Books

section Run
variable {cfg : Config} {cap : Int}

/-- Under the cap, each slot leaves the rows of the others alone. -/
def capRules (cfg : Config) (cap : Int) :
    Rules (service cfg (capFaults.guarded noneSettledBetween)) World where
  world w := w
  inv := CapBooks cap
  rely i w w' := match i with
    | .watcher => ScanRely w w'
    | .mint id => RowUndisturbed id w w'
  guar i w w' := match i with
    | .watcher => ∀ id, RowUndisturbed id w w'
    | .mint id => (∀ j, j ≠ id → RowUndisturbed j w w') ∧ ScanRely w w'
  rest i w := match i with
    | .watcher => True
    | .mint id => MintRest id w
  hist _ _ := True
  rely_refl i w := by
    cases i with
    | watcher => exact .refl w
    | mint id => exact .refl id w
  rely_trans {i _ _ _} h h' := by
    cases i with
    | watcher => exact ScanRely.trans h h'
    | mint id => exact RowUndisturbed.trans h h'
  guar_refl i w := by
    cases i with
    | watcher => exact fun id => .refl id w
    | mint _ => exact ⟨fun j _ => .refl j w, .refl w⟩
  guar_rely {i j _ _} hij _ _ h := by
    cases i with
    | watcher =>
        cases j with
        | watcher => exact absurd rfl hij
        | mint id => exact h id
    | mint id =>
        cases j with
        | watcher => exact h.2
        | mint id' => exact h.1 id' fun heq => hij (by rw [heq])
  rest_stable {i _ _} hs _ h hr := by
    cases i with
    | watcher => trivial
    | mint id => exact MintRest.later hs.books h hr
  hist_refl _ := trivial
  hist_trans _ _ := trivial
  guar_hist _ _ _ := trivial
  env_step {e s w} hi he := by
    have hs := EnvEvent.occur_surroundings he
    refine ⟨w, rfl, hi.occur he, trivial, ?_⟩
    intro i
    cases i with
    | watcher => exact (EnvEffect.occur hi.books he).scanRely hs e.burned_nonneg
    | mint id => exact hs.undisturbed id

theorem capMint (id : ObjectId) : MintClient (capRules cfg cap) (.mint id) id where
  row := rfl
  may op out w h := by
    rw [Faults.guarded, Bool.and_eq_true] at h
    exact h.1
  mayKill op w h := by
    have hkill : (!op.filesMintHash) = true := h
    simpa using hkill
  books s hs := hs.books
  rest _ := Iff.rfl
  rely _ _ h := h
  accept s w hi h := ⟨w, rfl, hi.mint h, fun _ hj => h.undisturbed hj, h.scanRely⟩

/-- Nothing is mined since the supply was read but a moment ago. -/
theorem World.minedSinceWei_nil (w : World) : w.minedSinceWei [] = 0 := by
  have hzero : w.deposits.docs.map (w.minedWei []) = w.deposits.docs.map fun _ => 0 :=
    List.map_congr_left fun d _ => by simp [World.minedWei, World.mintedBy]
  rw [World.minedSinceWei, hzero]
  simp

/-- The watcher knows the sums it has read, and that they leave room. -/
def capScan (hcap : ∀ n, cfg.maxTvlFair.toBigInt = .ok n → n * satsPerFair * satsToWei ≤ cap) :
    ScanClient (capRules cfg cap) .watcher where
  listed _ _ := True
  known _ _ := True
  supplyRead := SupplyRead
  inFlightRead n w := w.pendingWei ≤ n
  bothRead n w := w.tvlWei ≤ n
  cleared n w := w.tvlWei + n ≤ cap
  listed_stable _ _ _ _ _ _ _ := trivial
  known_stable _ _ _ _ _ _ _ := trivial
  supplyRead_stable n _ _ _ _ h hn := h.reads n hn
  inFlightRead_stable _ _ _ _ _ h hn := Int.le_trans h.pending hn
  bothRead_stable _ _ _ _ _ h hn := Int.le_trans h.tvl hn
  cleared_stable n s t _ _ h hn := by
    have ht : t.tvlWei ≤ s.tvlWei := h.tvl
    have hn : s.tvlWei + n ≤ cap := hn
    show t.tvlWei + n ≤ cap
    omega
  listed_kept _ _ _ _ _ := trivial
  known_kept _ _ _ _ _ := trivial
  known_listed _ _ _ := trivial
  rest _ := trivial
  books _ h := h.books
  intents _ _ h := h.intents
  jobs _ _ h := h.jobs
  block _ _ _ _ _ _ _ := trivial
  address _ _ _ _ _ _ _ := trivial
  supplyFirst s t _ _ ht := by
    have ht : t = { s with minedSinceRead := some [] } := ht
    subst ht
    refine ⟨[], rfl, ?_⟩
    rw [World.minedSinceWei_nil]
    exact Int.le_of_eq (Int.add_zero _).symm
  inFlightSecond s supply out hi hmay hs := by
    obtain ⟨hs, hsome, hle⟩ := hs
    have hcond : noneSettledBetween CapSlot.watcher
        (.deposit (.find inFlightDeposit none) : Op (List DepositDoc)) s = true :=
      Faults.guarded_may hmay
    have hsome : s.minedSinceRead = some hs := hsome
    have hnot : ∀ d ∈ s.deposits.docs, d.settledSince hs = false := by
      rw [noneSettledBetween, hsome] at hcond
      simpa [Op.sumsInFlight, inFlightDeposit] using hcond
    have hread := CapBooks.read_le hi hnot
    have hle : s.base.totalSupply ≤ supply + s.minedSinceWei hs := hle
    show s.base.totalSupply + s.pendingWei ≤ supply + s.inFlightWei
    omega
  inFlightFirst s hi := CapBooks.pending_le hi
  supplySecond s t inFlight _ _ ht hs := by
    have ht : t = { s with minedSinceRead := some [] } := ht
    subst ht
    have hs : s.pendingWei ≤ inFlight := hs
    show s.base.totalSupply + s.pendingWei ≤ s.base.totalSupply + inFlight
    omega
  clear s n maxTvl postFeeWei hmax hroom hs := by
    have hs : s.tvlWei ≤ n := hs
    have hle := hcap maxTvl hmax
    show s.tvlWei + postFeeWei ≤ cap
    omega
  accept s w hi h := by
    have hi : CapBooks cap s := hi
    refine ⟨w, rfl, hi.scan h ?_, h.undisturbed⟩
    rw [Int.add_zero]
    exact hi.capped
  confirm s w x postFeeWei hi _ hclear _ _ _ h :=
    ⟨w, rfl, CapBooks.scan hi h hclear, h.undisturbed⟩

theorem cap_starts (hcap : ∀ n, cfg.maxTvlFair.toBigInt = .ok n → n * satsPerFair * satsToWei ≤ cap) :
    (capRules cfg cap).Starts := by
  intro i t s hi hrest hready
  cases i with
  | watcher =>
      cases t with
      | processBlock height tip => exact (capScan hcap).processBlock height tip s hi trivial
      | _ => cases hready
  | mint id =>
      cases t with
      | signMint mode job =>
          cases mode with
          | safeProposal => cases hready
          | directEoa =>
              have hready : (job.depositId == id &&
                  s.mintQueue.any fun j => decide (j.data = job)) = true := hready
              rw [Bool.and_eq_true, beq_iff_eq, List.any_eq_true] at hready
              obtain ⟨hid, j, hj, hjob⟩ := hready
              have hjob : j.data = job := by simpa using hjob
              subst hid hjob
              obtain ⟨d, hd⟩ := hi.books.jobs j hj
              exact (capMint j.data.depositId).outline.signMint rfl s hi
                ⟨d, ⟨hd.row, hd.matched, hd.amount⟩, hrest⟩
      | _ => cases hready

/-- A whole number of FAIR is the cap it is read as. -/
theorem maxTvl_le {q : ℚ} (hq : cfg.maxTvlFair = .finite q) {n : Int}
    (hn : cfg.maxTvlFair.toBigInt = .ok n) : n * satsPerFair * satsToWei ≤ ⌊q * 10 ^ 18⌋ := by
  have heq : q = (n : ℚ) := by
    have h := JsNumber.toBigInt_ok hn
    rw [hq] at h
    exact JsNumber.finite.inj h
  refine Int.le_floor.mpr (le_of_eq ?_)
  rw [heq, satsPerFair, satsToWei]
  push_cast
  ring

end Run

namespace Sample

def cappedConfig : Config := { config with maxTvlFair := .finite 15 }

theorem capWorld_idle : Idle capWorld := by
  refine ⟨?_, (by intro _ h; cases h), rfl⟩
  intro d hd
  have hd : d ∈ [{ baseAddress := ⟨7⟩, fairAddress := "fAddress", hdIndex := 0 }] := hd
  rw [List.mem_singleton] at hd
  subst hd
  exact Or.inl ⟨rfl, rfl, rfl⟩

def scan (height steps : Nat) : List (Event JsError CapSlot Task EnvEvent) :=
  .start .watcher (.processBlock height 2) :: List.replicate steps (.step .watcher .done)

/-- The first payment is credited and its mint broadcast; then the second is
scanned as far as the supply. -/
def supplyRead : List (Event JsError CapSlot Task EnvEvent) :=
  scan 1 11 ++ .start (.mint 0) (.signMint .directEoa ⟨0, ⟨7⟩, 9970000000000000000, txid, 0⟩) ::
    List.replicate 4 (.step (.mint 0) .done) ++ scan 2 9

end Sample

/-- The mint is mined and settled between the two reads. -/
def overtakenRead : List (Event JsError CapSlot Task EnvEvent) :=
  Sample.supplyRead ++ .env (.mine ⟨0⟩ true) :: List.replicate 3 (.step (.mint 0) .done) ++
    List.replicate 3 (.step .watcher .done)

theorem overtaken_read_exceeds_cap : Idle Sample.capWorld ∧
    (Sample.capWorld.base.totalSupply : ℚ) ≤ 15 * 10 ^ 18 ∧
    ∃ p, (service Sample.cappedConfig capFaults).exec (.init Sample.capWorld) overtakenRead =
        some p ∧ ¬ (p.world.tvlWei : ℚ) ≤ 15 * 10 ^ 18 := by
  refine ⟨Sample.capWorld_idle, by norm_num [Sample.capWorld], ?_⟩
  have h : ((service Sample.cappedConfig capFaults).exec (.init Sample.capWorld)
      overtakenRead).map (fun p => p.world.tvlWei) = some 19940000000000000000 := by
    decide +kernel
  obtain ⟨p, hp, htvl⟩ := Option.map_eq_some_iff.mp h
  refine ⟨p, hp, ?_⟩
  rw [htvl]
  norm_num

/-- As long as no row is settled between the two reads of a cap check, supply and
pending deposits together stay within the cap. -/
theorem supply_stays_capped (cfg : Config) {q : ℚ} (hcap : cfg.maxTvlFair = .finite q)
    {w : World} (hidle : Idle w) (hstart : (w.base.totalSupply : ℚ) ≤ q * 10 ^ 18)
    {p : Pool Op JsError World CapSlot} {es : List (Event JsError CapSlot Task EnvEvent)}
    (hp : (service cfg capFaults).exec (.init w) es = some p)
    (hc : (service cfg capFaults).meets noneSettledBetween (.init w) es = true) :
    (p.world.tvlWei : ℚ) ≤ q * 10 ^ 18 := by
  have hinv : CapBooks ⌊q * 10 ^ 18⌋ w := by
    refine ⟨hidle.books, ?_, ?_⟩
    · intro j d hd ho
      cases hidle.rows d (Collection.get_mem hd) with
      | inl h => exact h.1
      | inr h =>
          cases h with
          | inl h => simp [DepositDoc.isOpen, h] at ho
          | inr h => simp [DepositDoc.isOpen, h] at ho
    · rw [World.tvlWei, hidle.pendingWei, Int.add_zero]
      exact Int.le_floor.mpr hstart
  have hinit : (capRules cfg ⌊q * 10 ^ 18⌋).Good (.init w) w := by
    refine .init rfl hinv ?_
    intro i
    cases i with
    | watcher => trivial
    | mint id =>
        intro _ _ _
        rw [World.mintsOf, hidle.txs, List.filter_nil]
  have hexec := System.exec_guarded _ hp hc
  rw [service_guarded] at hexec
  obtain ⟨t, ht, _⟩ := hinit.exec (fun _ _ _ => trivial) (cap_starts fun n hn => maxTvl_le hcap hn) hexec
  have htw : t = p.world := ht.world
  subst htw
  exact Int.le_floor.mp ht.inv.capped

/-- The mint is mined between the two reads, and settled after them. -/
def orderlyRead : List (Event JsError CapSlot Task EnvEvent) :=
  Sample.supplyRead ++ .env (.mine ⟨0⟩ true) :: List.replicate 2 (.step .watcher .done) ++
    List.replicate 3 (.step (.mint 0) .done)

theorem orderly_read_stays_capped : ∃ p,
    (service Sample.cappedConfig capFaults).exec (.init Sample.capWorld) orderlyRead = some p ∧
    p.world.tvlWei = 9970000000000000000 ∧ (p.world.tvlWei : ℚ) ≤ 15 * 10 ^ 18 := by
  have h : ((service Sample.cappedConfig capFaults).exec (.init Sample.capWorld)
      orderlyRead).map (fun p => p.world.tvlWei) = some 9970000000000000000 := by
    decide +kernel
  obtain ⟨p, hp, htvl⟩ := Option.map_eq_some_iff.mp h
  exact ⟨p, hp, htvl, supply_stays_capped Sample.cappedConfig rfl Sample.capWorld_idle
    (by norm_num [Sample.capWorld]) hp (by decide +kernel)⟩

end FairBridge

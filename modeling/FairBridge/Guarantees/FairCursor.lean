import FairBridge.Ledger.Scans
import FairBridge.Worker.LoopOutline

/-!
The cursor of the FairCoin watcher. It is moved over a block only after every vout
of the block was looked up, and every vout found to pay a deposit address has its
row.
-/

namespace FairBridge
open Store Async Async.Rules

def Op.createsDeposit {β : Type} : Op β → Bool
  | .deposit (.create _) => true
  | _ => false

/-- The error is the one of a key that is taken. -/
def saysDuplicate : Outcome → Bool
  | .done => false
  | .fail e | .lost e => e.includes "E11000"

/-- One watcher, started again whenever its run has ended. Any request may raise
and the run may die at any await; only the store says that a key is taken. -/
def fairWatcherRuns : Faults Unit where
  ready _ _ t := match t with
    | .startFairWatcher _ _ => true
    | _ => false
  may _ op out _ := !(op.createsDeposit && saysDuplicate out)
  mayKill _ _ _ := true
  row _ := none

theorem FairNode.blockAt_prefix {f f' : FairNode} (h : f.blocks <+: f'.blocks) {n : Nat}
    {b : Block} (hb : f.blockAt n = some b) : f'.blockAt n = some b := by
  cases n with
  | zero => exact hb
  | succ n =>
      obtain ⟨more, hm⟩ := h
      have hb : f.blocks[n]? = some b := hb
      have hlt : n < f.blocks.length := (List.getElem?_eq_some_iff.mp hb).1
      rw [blockAt, ← hm, List.getElem?_append_left hlt, hb]

namespace FairCursor

/-- The vout was looked up, and if its address was known, it has a row. -/
def Dealt (n : Nat) (x : Txid × TxVout) (w : World) : Prop :=
  ∀ a, voutAddress x.2 = some a → ∃ isKnown, w.lookups (n, x.1, x.2.n) = some isKnown ∧
    (isKnown = true → w.vouched x.1 x.2.n)

/-- All vouts of the blocks above `first` and up to `last` are dealt with. -/
def Covered (first last : Int) (w : World) : Prop :=
  ∀ n : Nat, first < n → (n : Int) ≤ last →
    ∃ b, w.fair.blockAt n = some b ∧ ∀ x ∈ b.vouts, Dealt n x w

/-- Vouts keep their rows, and blocks stay. -/
structure Grown (w w' : World) : Prop where
  vouched : ∀ txid n, w.vouched txid n → w'.vouched txid n
  blocks : w.fair.blocks <+: w'.fair.blocks

/-- The cursor stays in place as well, or it moves over vouts that are dealt with;
nothing below it is looked up again. -/
structure Advanced (w w' : World) : Prop extends Grown w w' where
  cursor : ∀ first, w.cursor .faircoin = some first →
    ∃ last, w'.cursor .faircoin = some last ∧ first ≤ last ∧ Covered first last w'
  lookups : ∀ first, w.cursor .faircoin = some first →
    ∀ k, (k.1 : Int) ≤ first → w'.lookups k = w.lookups k

section Relations
variable {u v w : World} {first last next : Int} {n : Nat} {x : Txid × TxVout}

theorem Grown.refl (w : World) : Grown w w := ⟨fun _ _ h => h, List.prefix_rfl⟩

theorem Grown.trans (huv : Grown u v) (hvw : Grown v w) : Grown u w :=
  ⟨fun txid n h => hvw.vouched txid n (huv.vouched txid n h), huv.blocks.trans hvw.blocks⟩

theorem Grown.dealt (h : Grown u v) (hl : v.lookups (n, x.1, x.2.n) = u.lookups (n, x.1, x.2.n))
    (hd : Dealt n x u) : Dealt n x v := by
  intro a ha
  obtain ⟨isKnown, hk, hv⟩ := hd a ha
  exact ⟨isKnown, hl.trans hk, fun hy => h.vouched _ _ (hv hy)⟩

theorem Covered.empty (w : World) : Covered first first w := by
  intro n h h'
  omega

theorem Covered.later (hc : Covered first last u) (h : Grown u v)
    (hl : ∀ k, (k.1 : Int) ≤ last → v.lookups k = u.lookups k) : Covered first last v := by
  intro n hn hn'
  obtain ⟨b, hb, hx⟩ := hc n hn hn'
  exact ⟨b, FairNode.blockAt_prefix h.blocks hb, fun x hmem => h.dealt (hl _ hn') (hx x hmem)⟩

theorem Covered.append (h : Covered first last w) (h' : Covered last next w) :
    Covered first next w := by
  intro n hn hn'
  by_cases hl : (n : Int) ≤ last
  · exact h n hn hl
  · exact h' n (by omega) hn'

/-- Only vouts above the cursor are looked up. -/
theorem Grown.advanced (h : Grown u v) (hc : v.cursor = u.cursor)
    (hl : ∀ first, u.cursor .faircoin = some first →
      ∀ k, (k.1 : Int) ≤ first → v.lookups k = u.lookups k) : Advanced u v where
  toGrown := h
  cursor first hf := ⟨first, hc ▸ hf, Int.le_refl _, .empty v⟩
  lookups := hl

theorem Advanced.refl (w : World) : Advanced w w :=
  (Grown.refl w).advanced rfl fun _ _ _ _ => rfl

theorem Advanced.trans (huv : Advanced u v) (hvw : Advanced v w) : Advanced u w where
  toGrown := huv.toGrown.trans hvw.toGrown
  cursor first hf := by
    obtain ⟨last, hl, hle, hc⟩ := huv.cursor first hf
    obtain ⟨next, hn, hle', hc'⟩ := hvw.cursor last hl
    exact ⟨next, hn, hle.trans hle', (hc.later hvw.toGrown (hvw.lookups last hl)).append hc'⟩
  lookups first hf k hk := by
    obtain ⟨last, hl, hle, _⟩ := huv.cursor first hf
    rw [hvw.lookups last hl k (hk.trans hle), huv.lookups first hf k hk]

end Relations

/-- What the watcher relies on: nobody else moves the cursor, looks up vouts or
touches a row. -/
structure Around (w w' : World) : Prop extends Grown w w' where
  rows : ∀ id d, w.deposits.get id = some d → w'.deposits.get id = some d
  cursor : w'.cursor = w.cursor
  lookups : w'.lookups = w.lookups

theorem Around.occur {e : EnvEvent} {w w' : World} (h : e.occur w = some w') : Around w w' := by
  have hsur := EnvEvent.occur_surroundings h
  refine ⟨⟨?_, hsur.fairBlocks⟩, hsur.deposits, hsur.cursor, hsur.lookups⟩
  intro txid n hv
  obtain ⟨d, hd, hk⟩ := hv
  exact ⟨d, Collection.get_mem (hsur.deposits d.id d (Collection.get_of_mem hd)), hk⟩

def cursorRules (cfg : Config) : Rules (service cfg fairWatcherRuns) World where
  world w := w
  inv := IntentsUnmatched
  rely _ := Around
  guar _ := Advanced
  rest _ _ := True
  hist := Advanced
  rely_refl _ w := ⟨.refl w, fun _ _ h => h, rfl, rfl⟩
  rely_trans huv hvw := ⟨huv.toGrown.trans hvw.toGrown,
    fun id d h => hvw.rows id d (huv.rows id d h), hvw.cursor.trans huv.cursor, hvw.lookups.trans huv.lookups⟩
  guar_refl _ w := .refl w
  guar_rely h _ _ _ := absurd rfl h
  rest_stable _ _ _ _ := trivial
  hist_refl := .refl
  hist_trans := Advanced.trans
  guar_hist _ _ h := h
  env_step hi he := by
    have hocc := (service_env he).2
    have haround := Around.occur hocc
    exact ⟨_, rfl, hi.occur hocc,
      haround.toGrown.advanced haround.cursor fun _ _ k _ => congrFun haround.lookups k,
      fun _ => haround⟩

/-- What survives whatever neither moves the cursor, nor looks up another vout than
`k`, nor loses a row or a block. -/
def Lasting (k : Nat × Txid × Nat) (A : World → Prop) : Prop :=
  ∀ w w', Grown w w' → w'.cursor = w.cursor → (∀ k', k' ≠ k → w'.lookups k' = w.lookups k') →
    A w → A w'

section Outline
variable {cfg : Config} {v : ScannedVout} {A : World → Prop}

theorem Lasting.stable {k : Nat × Txid × Nat} (hA : Lasting k A) :
    (cursorRules cfg).Stable () A :=
  fun w w' _ _ hw => hA w w' hw.toGrown hw.cursor fun k' _ => congrFun hw.lookups k'

/-- The vout's address is known, and its intent is as it was read. -/
structure AtVout (A : World → Prop) (v : ScannedVout) (m : MatchedDeposit) (w : World) :
    Prop where
  base : A w
  known : w.lookups v.key = some true
  intent : ∀ p, m.pending = some p → w.deposits.get p.id = some p ∧ p.isOpen = true

/-- What is known of a vout that is done with. -/
def Done (A : World → Prop) (v : ScannedVout) (w : World) : Prop :=
  A w ∧ Dealt v.height (v.txid, v.vout) w

theorem AtVout.stable (hA : Lasting v.key A) {m : MatchedDeposit} :
    (cursorRules cfg).Stable () (AtVout A v m) := by
  intro w w' _ _ hw h
  refine ⟨hA.stable w w' ‹_› ‹_› hw h.base, ?_, ?_⟩
  · rw [hw.lookups, h.known]
  · intro p hp
    obtain ⟨hd, ho⟩ := h.intent p hp
    exact ⟨hw.rows _ p hd, ho⟩

theorem Done.stable (hA : Lasting v.key A) : (cursorRules cfg).Stable () (Done A v) := by
  intro w w' hi hi' hw h
  exact ⟨hA.stable w w' hi hi' hw h.1,
    hw.toGrown.dealt (congrFun hw.lookups _) h.2⟩

/-- The vout has its row. -/
theorem AtVout.done {m : MatchedDeposit} {w : World} (h : AtVout A v m w)
    (hv : w.vouched v.txid v.vout.n) : Done A v w :=
  ⟨h.base, fun _ _ => ⟨true, h.known, fun _ => hv⟩⟩

/-- A step that gives the vout its row. -/
theorem AtVout.later (hA : Lasting v.key A) {m : MatchedDeposit} {w w' : World}
    (h : AtVout A v m w) (hg : Grown w w') (hc : w'.cursor = w.cursor)
    (hl : w'.lookups = w.lookups) (hv : w'.vouched v.txid v.vout.n) : Done A v w' := by
  refine ⟨hA w w' hg hc (fun k' _ => congrFun hl k') h.base, ?_⟩
  exact fun _ _ => ⟨true, by rw [hl]; exact h.known, fun _ => hv⟩

theorem Grown.setDeposit {w : World} {id : ObjectId} {d : DepositDoc}
    (hd : w.deposits.get id = some d) (hnone : d.fairTxid = none) (u : DepositSet) :
    Grown w (w.setDeposit id u) :=
  ⟨fun _ _ h => vouched_setDeposit hd hnone u h, List.prefix_rfl⟩

theorem Grown.insertDeposit (w : World) (d : DepositDoc) : Grown w (w.insertDeposit d) :=
  ⟨fun _ _ h => vouched_insertDeposit h, List.prefix_rfl⟩

/-- A row is put to the vout. -/
theorem cursor_setVout (hA : Lasting v.key A) {m : MatchedDeposit} {w : World}
    (hi : IntentsUnmatched w) (h : AtVout A v m w) {p d : DepositDoc} (hp : m.pending = some p)
    (hd : w.deposits.get p.id = some d) {u : DepositSet} (hu : (u.apply d).isOpen = false)
    (htxid : u.fairTxid = some v.txid) (hvout : u.fairVout = some v.vout.n) :
    ∃ t, t = w.setDeposit p.id u ∧ IntentsUnmatched t ∧ Advanced w t ∧ Done A v t := by
  obtain ⟨hget, ho⟩ := h.intent p hp
  cases hget.symm.trans hd
  have hg := Grown.setDeposit hd (hi _ p hd ho) u
  refine ⟨_, rfl, hi.setDeposit hd fun h => absurd h (by simp [hu]), hg.advanced rfl fun _ _ _ _ => rfl,
    h.later hA hg rfl rfl ?_⟩
  refine ⟨_, Collection.get_mem (World.get_setDeposit hd u), ?_, ?_⟩
  · simp [DepositSet.apply, htxid]
  · simp [DepositSet.apply, hvout]

theorem cursor_insert (hA : Lasting v.key A) {m : MatchedDeposit} {w : World}
    (hi : IntentsUnmatched w) (h : AtVout A v m w) {d : DepositDoc} (ho : d.isOpen = false)
    (htxid : d.fairTxid = some v.txid) (hvout : d.fairVout = some v.vout.n) :
    ∃ t, t = w.insertDeposit d ∧ IntentsUnmatched t ∧ Advanced w t ∧ Done A v t := by
  have hg := Grown.insertDeposit w d
  refine ⟨_, rfl, hi.insertDeposit fun h => absurd h (by simp [ho]), hg.advanced rfl fun _ _ _ _ => rfl,
    h.later hA hg rfl rfl ?_⟩
  exact ⟨_, Collection.get_mem (World.get_insertDeposit_new w d), htxid, hvout⟩

/-- The pending intent is there, and open, when it is to be updated. -/
theorem AtVout.pending_some {m : MatchedDeposit} {w : World} (h : AtVout A v m w)
    {p : DepositDoc} (hp : m.pending = some p) {cond : DepositDoc → Bool}
    (hc : cond p = true) : (w.deposits.get p.id).filter cond ≠ none := by
  rw [(h.intent p hp).1]
  simp [hc]

/-- The look-up is on record, whichever way it went. -/
theorem cursor_lookUp (hA : Lasting v.key A)
    (hcur : ∀ w, A w → ∀ first, w.cursor .faircoin = some first → first < v.height)
    {a : String} {w : World} (h : A w) :
    Advanced w (w.lookUp a v.key) ∧
      if w.addressCache.contains a = true then
        A (w.lookUp a v.key) ∧ (w.lookUp a v.key).lookups v.key = some true
      else Done A v (w.lookUp a v.key) := by
  have hg : Grown w (w.lookUp a v.key) := ⟨fun _ _ h => h, List.prefix_rfl⟩
  have hother : ∀ k, k ≠ v.key → (w.lookUp a v.key).lookups k = w.lookups k :=
    fun k hk => Function.update_of_ne hk ..
  have hself : (w.lookUp a v.key).lookups v.key = some (w.addressCache.contains a) :=
    Function.update_self ..
  have hA' : A (w.lookUp a v.key) := hA w _ hg rfl hother h
  refine ⟨hg.advanced rfl ?_, ?_⟩
  · intro first hf k hk
    refine hother k ?_
    intro hkey
    have hlt := hcur w h first hf
    rw [hkey] at hk
    have hk : (v.height : Int) ≤ first := hk
    omega
  · split
    · rename_i hknown
      exact ⟨hA', hknown ▸ hself⟩
    · rename_i hknown
      exact ⟨hA', fun _ _ => ⟨_, hself, fun hyes => absurd hyes hknown⟩⟩

theorem lookup_stable (hA : Lasting v.key A) :
    (cursorRules cfg).Stable () fun w => A w ∧ w.lookups v.key = some true := by
  intro w w' hi hi' hw h
  exact ⟨hA.stable w w' hi hi' hw h.1, by rw [hw.lookups, h.2]⟩

theorem cursor_enqueue {B : World → Prop} (hB : ∀ w w', Grown w w' → w'.cursor = w.cursor →
    w'.lookups = w.lookups → B w → B w') (job : MintJob) :
    (cursorRules cfg).Performs () B (.addMintJob job)
      (Answered (fun _ => B) fun _ => True) := by
  refine Deposit.performs_addMintJob ?_ fun _ _ _ => trivial
  intro w hi h
  have hg : Grown w (w.enqueueMint job) := ⟨fun _ _ h => h, List.prefix_rfl⟩
  exact ⟨_, rfl, hi, hg.advanced rfl fun _ _ _ _ => rfl, hB w _ hg rfl rfl h, trivial⟩

/-- The scan of one vout, with what else is known beside it. -/
def voutOutline (cfg : Config) (v : ScannedVout) (hA : Lasting v.key A)
    (hcur : ∀ w, A w → ∀ first, w.cursor .faircoin = some first → first < v.height) :
    CreditOutline (cursorRules cfg) () v where
  base := A
  done := Done A v
  known _ w := A w ∧ w.lookups v.key = some true
  matched := AtVout A v
  clocked m _ := AtVout A v m
  summed m _ := AtVout A v m
  within := AtVout A v
  confirmed _ _ _ := Done A v
  base_stable := hA.stable
  done_stable := Done.stable hA
  known_stable _ := lookup_stable hA
  matched_stable _ := AtVout.stable hA
  clocked_stable _ _ := AtVout.stable hA
  summed_stable _ _ := AtVout.stable hA
  within_stable _ := AtVout.stable hA
  confirmed_stable _ _ _ := Done.stable hA
  rest _ := trivial
  summed_matched _ _ _ _ h := h
  within_matched _ _ _ h := h
  unaddressed hnone _ _ h := ⟨h, fun a ha => by rw [hnone] at ha; cases ha⟩
  address a _ w hi h := ⟨_, rfl, hi, cursor_lookUp hA hcur h⟩
  intent a _ w p _ h hp hf := by
    rw [Bool.and_eq_true] at hf
    refine ⟨h.1, h.2, ?_⟩
    intro p' hp'
    cases hp'
    exact ⟨Collection.get_of_mem hp, hf.2⟩
  earliest a _ w origin _ h _ _ := ⟨h.1, h.2, fun p hp => by cases hp⟩
  already m w d _ h hd hf := by
    simp only [Bool.and_eq_true, beq_iff_eq] at hf
    exact h.done ⟨d, hd, hf⟩
  unsolicited m _ := by
    refine Deposit.performs_create ?_ fun _ _ _ => trivial
    intro w hi h _
    obtain ⟨t, ht, hit, hadv, hdone⟩ := cursor_insert hA hi h
      (d := v.row .failed ⟨0⟩ (-1) m.fairAddress m.amountSats (m.amountSats * satsToWei))
      rfl rfl rfl
    exact ⟨t, ht, hit, hadv, hdone, trivial⟩
  refuseIntent m p hp := by
    refine Deposit.performs_setVoutById rfl rfl ?_ ?_ ?_ fun _ _ _ => trivial
    · intro w d hi h hd
      obtain ⟨hget, ho⟩ := h.intent p hp
      cases hget.symm.trans hd
      exact hi _ p hd ho
    · intro w d hi h hd _
      obtain ⟨t, ht, hit, hadv, hdone⟩ := cursor_setVout hA hi h hp hd
        (u := v.set .failed m.amountSats (m.amountSats * satsToWei)) rfl rfl rfl
      exact ⟨t, ht, hit, hadv, hdone, trivial⟩
    · intro w _ h hnone
      have hget := (h.intent p hp).1
      rw [show w.deposits.get p.id = none from hnone] at hget
      cases hget
  refuseNew m origin _ _ := by
    refine Deposit.performs_create ?_ fun _ _ _ => trivial
    intro w hi h _
    obtain ⟨t, ht, hit, hadv, hdone⟩ := cursor_insert hA hi h
      (d := v.row .failed origin.baseAddress origin.hdIndex m.fairAddress m.amountSats
        (m.amountSats * satsToWei)) rfl rfl rfl
    exact ⟨t, ht, hit, hadv, hdone, trivial⟩
  clock _ _ _ h := h
  daily _ _ _ _ := Deposit.performs_find (fun _ _ _ h _ => h) fun _ _ _ => trivial
  room _ _ _ _ _ _ _ h := h
  record m r w hi h := by
    have hg : Grown w { w with minedSinceRead := r } := ⟨fun _ _ h => h, List.prefix_rfl⟩
    exact ⟨_, rfl, hi, hg.advanced rfl fun _ _ _ _ => rfl,
      hA w _ hg rfl (fun _ _ => rfl) h.base, h.known, h.intent⟩
  confirmIntent m p postFeeWei hp _ := by
    refine Deposit.performs_setVout rfl rfl ?_ ?_ ?_ fun _ _ _ => trivial
    · intro w d hi h hd
      obtain ⟨hget, ho⟩ := h.intent p hp
      cases hget.symm.trans hd
      exact hi _ p hd ho
    · intro w d hi h hd _ _
      obtain ⟨t, ht, hit, hadv, hdone⟩ := cursor_setVout hA hi h hp hd
        (u := v.set .confirmed m.amountSats postFeeWei) rfl rfl rfl
      exact ⟨t, ht, hit, hadv, hdone, trivial⟩
    · intro w _ h hnone
      exact absurd hnone (h.pending_some hp (h.intent p hp).2)
  confirmNew m origin postFeeWei _ _ _ := by
    refine Deposit.performs_created _ ?_ (fun _ _ _ => trivial) ?_ ?_
    · intro w hi h _
      obtain ⟨t, ht, hit, hadv, hdone⟩ := cursor_insert hA hi h
        (d := v.row .confirmed origin.baseAddress origin.hdIndex m.fairAddress m.amountSats
          postFeeWei) rfl rfl rfl
      exact ⟨t, ht, hit, hadv, hdone, trivial, hdone⟩
    · intro w d _ h hd htxid hvout
      exact h.done ⟨d, hd, htxid, hvout⟩
    · intro w e out _ _ hout hmay he
      cases hout with
      | inl hout | inr hout =>
          subst hout
          simp [fairWatcherRuns, Op.createsDeposit, saysDuplicate, he] at hmay
  enqueue _ _ _ _ _ := cursor_enqueue (fun w w' hg hc hl h =>
    ⟨hA w w' hg hc (fun k _ => congrFun hl k) h.1, hg.dealt (congrFun hl _) h.2⟩) _

/-- Above the cursor, at `last`, the vouts of block `n` are dealt with up to those
that are left. -/
structure Scanning (last : Int) (n : Nat) (b : Block) (left : List (Txid × TxVout))
    (w : World) : Prop where
  cursor : w.cursor .faircoin = some last
  block : w.fair.blockAt n = some b
  dealt : ∃ before, b.vouts = before ++ left ∧ ∀ x ∈ before, Dealt n x w

/-- A vout still to be scanned is not one of those that were. -/
theorem Scanning.lasting {last : Int} {n tip : Nat} {b : Block} {x : Txid × TxVout}
    {left : List (Txid × TxVout)} :
    Lasting (ScannedVout.key ⟨x.1, x.2, n, tip⟩) (Scanning last n b (x :: left)) := by
  intro w w' hg hc hl h
  obtain ⟨before, hb, hd⟩ := h.dealt
  refine ⟨hc ▸ h.cursor, FairNode.blockAt_prefix hg.blocks h.block, before, hb, ?_⟩
  intro y hy
  refine hg.dealt (hl _ ?_) (hd y hy)
  intro hkey
  have hdistinct := b.vouts_distinct
  rw [hb, List.map_append, List.nodup_append] at hdistinct
  refine hdistinct.2.2 _ (List.mem_map_of_mem hy) _ (List.mem_map_of_mem List.mem_cons_self) ?_
  exact (Prod.mk.inj hkey).2

theorem Scanning.stable {last : Int} {n : Nat} {b : Block} {left : List (Txid × TxVout)} :
    (cursorRules cfg).Stable () (Scanning last n b left) := by
  intro w w' _ _ hw h
  obtain ⟨before, hb, hd⟩ := h.dealt
  refine ⟨hw.cursor ▸ h.cursor, FairNode.blockAt_prefix hw.blocks h.block, before, hb, ?_⟩
  exact fun y hy => hw.toGrown.dealt (congrFun hw.lookups _) (hd y hy)

theorem Scanning.done {last : Int} {n tip : Nat} {b : Block} {x : Txid × TxVout}
    {left : List (Txid × TxVout)} {w : World}
    (h : Done (Scanning last n b (x :: left)) ⟨x.1, x.2, n, tip⟩ w) : Scanning last n b left w := by
  obtain ⟨before, hb, hd⟩ := h.1.dealt
  refine ⟨h.1.cursor, h.1.block, before ++ [x], by rw [hb, List.append_assoc]; rfl, ?_⟩
  intro y hy
  cases List.mem_append.mp hy with
  | inl hy => exact hd y hy
  | inr hy =>
      rw [List.mem_singleton.mp hy]
      exact h.2

/-- The block above the cursor is dealt with. -/
def Scanned (last : Int) (w : World) : Prop :=
  ∃ (n : Nat) (b : Block), (n : Int) = last + 1 ∧ Scanning last n b [] w

theorem Scanned.stable (last : Int) : (cursorRules cfg).Stable () (Scanned last) := by
  intro w w' hi hi' hw h
  obtain ⟨n, b, hn, hs⟩ := h
  exact ⟨n, b, hn, Scanning.stable w w' hi hi' hw hs⟩

/-- Where the cursor stands. -/
def Standing (last : Int) (w : World) : Prop := w.cursor .faircoin = some last

theorem Standing.stable (last : Int) : (cursorRules cfg).Stable () (Standing last) :=
  fun _ _ _ _ hw h => (congrFun hw.cursor _).trans h

/-- The block above the cursor is scanned to its end. -/
theorem cursor_processHeight (last : Int) (tip : Nat) :
    (cursorRules cfg).Triple () (Standing last) (processHeight cfg (last + 1) tip)
      (fun _ => Scanned last) (fun _ _ => True) := by
  rw [processHeight]
  split
  · rename_i hpos
    have hn : ((last + 1).toNat : Int) = last + 1 := Int.toNat_of_nonneg hpos
    refine Triple.weaken (processBlock_chain _ (Scanning last (last + 1).toNat)
      (Standing.stable last) (fun _ _ _ => trivial) (fun _ _ => Scanning.stable) ?_ ?_)
      (fun _ _ h => h) (fun _ w _ h => ?_) fun _ _ _ h => h
    · refine performs_read (fun _ => rfl) ?_ ?_ fun _ _ _ _ => trivial
      · intro w x w' hx
        simp only [effect] at hx
        split at hx <;> cases hx <;> rfl
      · intro w x _ h hx
        simp only [effect] at hx
        split at hx <;> cases hx
        · rename_i b hb
          exact ⟨h, hb, [], rfl, fun y hy => by cases hy⟩
        · trivial
    · intro b x left
      refine ((voutOutline cfg ⟨x.1, x.2, _, tip⟩ Scanning.lasting
        ?_).toVoutOutline.processVout).weaken
        (fun _ _ h => h) (fun _ _ _ h => Scanning.done h) fun _ _ _ h => h
      intro w h first hf
      cases h.cursor.symm.trans hf
      change last < ((last + 1).toNat : Int)
      omega
    · obtain ⟨b, hb⟩ := h
      exact ⟨_, b, hn, hb⟩
  · exact .throw (Standing.stable last) fun _ _ _ => trivial

/-- Every vout of the block is dealt with, so the cursor may pass it. -/
theorem cursor_set (last : Int) :
    (cursorRules cfg).Performs () (Scanned last) (.cursorSet .faircoin (last + 1))
      (Answered (fun _ => Standing (last + 1)) fun _ => True) := by
  refine performs (fun w _ hi _ _ _ => ⟨w, rfl, hi, .refl w, trivial⟩) ?_
  intro w x w' out hi h _ hx
  cases hx
  obtain ⟨n, b, hn, hs⟩ := h
  have hset : Function.update w.cursor .faircoin (some (last + 1)) .faircoin =
      some (last + 1) := Function.update_self ..
  refine ⟨_, rfl, hi, ⟨⟨fun _ _ h => h, List.prefix_rfl⟩, ?_, fun _ _ _ _ => rfl⟩,
    fun _ => hset, fun _ _ _ => trivial⟩
  intro first hf
  cases hs.cursor.symm.trans hf
  refine ⟨last + 1, hset, by omega, ?_⟩
  intro m hm hm'
  have hmn : m = n := by omega
  subst hmn
  obtain ⟨before, hb, hd⟩ := hs.dealt
  rw [List.append_nil] at hb
  exact ⟨b, hs.block, fun x hx => hd x (hb ▸ hx)⟩

theorem cursor_upsert (backfill : Int) :
    (cursorRules cfg).Performs () (fun _ => True) (.cursorUpsert .faircoin backfill)
      (Answered Standing fun _ => True) := by
  refine performs (fun w _ hi _ _ _ => ⟨w, rfl, hi, .refl w, trivial⟩) ?_
  intro w x w' out hi _ _ hx
  obtain ⟨last, hc, rfl, rfl⟩ | ⟨hc, rfl, rfl⟩ := effect_cursorUpsert hx
  · exact ⟨_, rfl, hi, .refl _, fun _ => hc, fun _ _ _ => trivial⟩
  · have hset : Function.update w.cursor .faircoin (some backfill) .faircoin =
        some backfill := Function.update_self ..
    refine ⟨_, rfl, hi, ⟨⟨fun _ _ h => h, List.prefix_rfl⟩, ?_, fun _ _ _ _ => rfl⟩,
      fun _ => hset, fun _ _ _ => trivial⟩
    intro first hf
    have hf' : w.cursor .faircoin = some first := hf
    cases hc.symm.trans hf'

def orphanOutline (cfg : Config) : OrphanDepositOutline (cursorRules cfg) () where
  base _ := True
  listed _ _ := True
  base_stable _ _ _ _ _ _ := trivial
  listed_stable _ _ _ _ _ _ _ := trivial
  base_rest _ _ _ := trivial
  listed_rest _ _ _ _ := trivial
  clock := performs_dateNow
  find _ := Deposit.performs_find (fun _ _ _ _ _ => trivial) fun _ _ _ => trivial
  skip _ _ _ _ _ _ := trivial
  enqueue _ _ job _ := cursor_enqueue (fun _ _ _ _ _ _ => trivial) job

def loopOutline (cfg : Config) : LoopOutline (cursorRules cfg) () where
  standing := Standing
  scanned := Scanned
  listed _ _ := True
  standing_stable := Standing.stable
  scanned_stable := Scanned.stable
  listed_stable _ _ _ _ _ _ _ := trivial
  rest _ := trivial
  list _ _ _ _ := trivial
  cache ds := by
    -- filling the address set has nothing to do with the cursor
    refine performs (fun w _ hi _ _ _ => ⟨w, rfl, hi, .refl w, trivial⟩) ?_
    intro w x w' out hi _ _ hx
    cases hx
    exact ⟨_, rfl, hi, Grown.advanced ⟨fun _ _ h => h, List.prefix_rfl⟩ rfl
      fun _ _ _ _ => rfl, fun _ => trivial, fun _ _ _ => trivial⟩
  reconcile := (orphanOutline cfg).reconcileOrphanDeposits
  upsert := cursor_upsert
  height := cursor_processHeight
  set := cursor_set

theorem cursor_starts : (cursorRules cfg).Starts := by
  intro i t w hi _ hready
  cases t with
  | startFairWatcher rounds heights =>
      exact (loopOutline cfg).startFairWatcher rounds heights w hi trivial
  | _ => cases hready

end Outline

end FairCursor

/-- Every block the cursor moves over was scanned to its end: each of its vouts that
pay an address was looked up, and if the address was known, the vout has a row. -/
theorem fair_cursor_passes_dealt (cfg : Config) {w : World}
    (hintents : ∀ d ∈ w.deposits.docs, d.isOpen = true → d.fairTxid = none)
    {p q : Pool Op JsError World Unit} {es fs : List (Event JsError Unit Task EnvEvent)}
    (hp : (service cfg fairWatcherRuns).exec (.init w) es = some p)
    (hq : (service cfg fairWatcherRuns).exec p fs = some q) {first last : Int}
    (hfirst : p.world.cursor .faircoin = some first)
    (hlast : q.world.cursor .faircoin = some last) {n : Nat} (hn : first < n)
    (hn' : (n : Int) ≤ last) :
    ∃ b, q.world.fair.blockAt n = some b ∧
      ∀ x ∈ b.vouts, ∀ a, voutAddress x.2 = some a →
        ∃ isKnown, q.world.lookups (n, x.1, x.2.n) = some isKnown ∧
          (isKnown = true →
            ∃ d ∈ q.world.deposits.docs, d.fairTxid = some x.1 ∧ d.fairVout = some x.2.n) := by
  have hinv : IntentsUnmatched w := fun _ d hd => hintents d (Collection.get_mem hd)
  have hinit : (FairCursor.cursorRules cfg).Good (.init w) w := .init rfl hinv fun _ => trivial
  obtain ⟨u, hu, _⟩ := hinit.exec (fun _ _ _ => trivial) FairCursor.cursor_starts hp
  obtain ⟨v, hv, hadv⟩ := hu.exec (fun _ _ _ => trivial) FairCursor.cursor_starts hq
  have hpw : u = p.world := hu.world
  have hqw : v = q.world := hv.world
  subst hpw hqw
  obtain ⟨last', hlast', _, hcov⟩ := hadv.cursor first hfirst
  cases hlast.symm.trans hlast'
  exact hcov n hn hn'

namespace Sample

def shallowConfig : Config := { config with fairConfirmations := .finite 1 }

/-- The watcher starts, and puts its cursor to 0. -/
def fairCursorSet : List (Event JsError Unit Task EnvEvent) :=
  .start () (.startFairWatcher 1 2) :: List.replicate 8 (.step () .done)

/-- The first block is scanned. -/
def fairBlockScanned : List (Event JsError Unit Task EnvEvent) :=
  List.replicate 13 (.step () .done)

end Sample

theorem fair_cursor_passes_payment : ∃ p q,
    (service Sample.shallowConfig fairWatcherRuns).exec (.init Sample.capWorld)
      Sample.fairCursorSet = some p ∧
    (service Sample.shallowConfig fairWatcherRuns).exec p Sample.fairBlockScanned = some q ∧
    ∃ d ∈ q.world.deposits.docs, d.fairTxid = some Sample.txid ∧ d.fairVout = some 0 := by
  have h : ((service Sample.shallowConfig fairWatcherRuns).exec (.init Sample.capWorld)
      Sample.fairCursorSet).bind (fun p =>
        ((service Sample.shallowConfig fairWatcherRuns).exec p Sample.fairBlockScanned).map
          fun q => (p.world.cursor .faircoin, q.world.cursor .faircoin, q.world.fair.blockAt 1,
            q.world.lookups (1, Sample.txid, 0))) =
      some (some 0, some 1, some (Sample.payment Sample.txid), some true) := by
    decide +kernel
  obtain ⟨p, hp, hr⟩ := Option.bind_eq_some_iff.mp h
  obtain ⟨q, hq, hs⟩ := Option.map_eq_some_iff.mp hr
  have hblock : q.world.fair.blockAt 1 = some (Sample.payment Sample.txid) :=
    congrArg (fun r => r.2.2.1) hs
  have hlookup : q.world.lookups (1, Sample.txid, 0) = some true :=
    congrArg (fun r => r.2.2.2) hs
  have hintents : ∀ d ∈ Sample.capWorld.deposits.docs, d.isOpen = true → d.fairTxid = none := by
    decide +kernel
  obtain ⟨b, hb, hdealt⟩ := fair_cursor_passes_dealt Sample.shallowConfig hintents hp hq
    (congrArg Prod.fst hs) (congrArg (fun r => r.2.1) hs) (n := 1) (by decide) (by decide)
  cases hblock.symm.trans hb
  obtain ⟨isKnown, hk, hrow⟩ := hdealt (Sample.txid,
    { value := 10, n := 0, address := some "fAddress" }) (by decide +kernel) "fAddress"
    (by decide +kernel)
  exact ⟨p, q, hp, hq, hrow (Option.some.inj (hk.symm.trans hlookup))⟩

end FairBridge

import FairBridge.Guarantees.BurnReleases

/-!
The cursor of the Base watcher. A window that the abort signal breaks off moves
the cursor like any other, past the logs it has not handled. As long as the log
loop meets the signal only with nothing left to record, the cursor never passes
a burn without a row.
-/

namespace FairBridge
open Store Async Async.Rules

/-- One watcher, started again whenever its run has ended. Any request may raise
and the run may die at any await. -/
def watcherRuns : Faults Unit where
  ready _ _ t := match t with
    | .startBaseWatcher _ => true
    | _ => false
  may _ _ _ _ := true
  mayKill _ _ _ := true
  row _ := none

def World.recorded (w : World) (l : BurnLog) : Prop :=
  ∃ d ∈ w.withdrawals.docs, d.key = l.key

/-- Nothing is left to record of the log. -/
def World.handled (w : World) (log : Log) : Bool :=
  match log.burnLog with
  | some l => w.withdrawals.docs.any fun d => d.key == l.key
  | none => true

/-- The log loop looks at the raised signal only where every log it has left is
handled already. -/
def abortsHandled {β : Type} (_ : Unit) (op : Op β) (w : World) : Bool :=
  match op with
  | .signalAborted pending => !w.aborted || pending.all w.handled
  | _ => true

theorem World.handled_iff {w : World} {log : Log} :
    w.handled log = true ↔ ∀ l, log.burnLog = some l → w.recorded l := by
  unfold handled
  cases log.burnLog with
  | none => simp
  | some l => simp [recorded]

namespace BaseChain

theorem blockLogs_prefix {c c' : BaseChain} (h : c.blocks <+: c'.blocks) {n : Nat}
    (hn : n ≤ c.tip) : c'.blockLogs n = c.blockLogs n := by
  obtain ⟨more, hm⟩ := h
  cases n with
  | zero => rfl
  | succ n =>
      have hlt : n < c.blocks.length := hn
      simp only [blockLogs, ← hm, List.getD_eq_getElem?_getD, List.getElem?_append_left hlt]

theorem mem_getLogs {c : BaseChain} {fromBlock toBlock : Int} {n : Nat} {log : Log}
    (hfrom : fromBlock ≤ n) (hto : (n : Int) ≤ toBlock) (hn : n ≤ c.tip)
    (h : log ∈ c.blockLogs n) : log ∈ c.getLogs fromBlock toBlock := by
  rw [getLogs, List.mem_flatMap]
  refine ⟨n, List.mem_range.mpr (by omega), ?_⟩
  rw [if_pos ⟨hfrom, hto⟩]
  exact h

end BaseChain

/-- The burns of the blocks above `first` and up to `last`, which exist, have
their rows. -/
def Covered (first last : Int) (w : World) : Prop :=
  ∀ n : Nat, first < n → (n : Int) ≤ last →
    n ≤ w.base.tip ∧ ∀ log ∈ w.base.blockLogs n, w.handled log = true

/-- Rows and blocks stay. -/
structure Grown (w w' : World) : Prop where
  rows : ∀ l, w.recorded l → w'.recorded l
  blocks : w.base.blocks <+: w'.base.blocks

/-- The cursor stays in place as well, or it moves over burns that have rows. -/
structure Advanced (w w' : World) : Prop extends Grown w w' where
  cursor : ∀ first, w.cursor .base = some first →
    ∃ last, w'.cursor .base = some last ∧ Covered first last w'

section Relations
variable {u v w : World} {first last next : Int}

theorem Grown.refl (w : World) : Grown w w := ⟨fun _ h => h, List.prefix_rfl⟩

theorem Grown.trans (huv : Grown u v) (hvw : Grown v w) : Grown u w :=
  ⟨fun l h => hvw.rows l (huv.rows l h), huv.blocks.trans hvw.blocks⟩

theorem Grown.handled (h : Grown u v) {log : Log} (hl : u.handled log = true) :
    v.handled log = true := by
  rw [World.handled_iff] at hl ⊢
  exact fun l hb => h.rows l (hl l hb)

theorem Grown.tip (h : Grown u v) : u.base.tip ≤ v.base.tip := h.blocks.length_le

theorem Covered.empty (w : World) : Covered first first w := by
  intro n h h'
  omega

theorem Covered.later (hc : Covered first last u) (h : Grown u v) :
    Covered first last v := by
  intro n hn hn'
  obtain ⟨htip, hlogs⟩ := hc n hn hn'
  refine ⟨htip.trans h.tip, ?_⟩
  intro log hlog
  rw [BaseChain.blockLogs_prefix h.blocks htip] at hlog
  exact h.handled (hlogs log hlog)

theorem Covered.append (h : Covered first last w) (h' : Covered last next w) :
    Covered first next w := by
  intro n hn hn'
  by_cases hl : (n : Int) ≤ last
  · exact h n hn hl
  · exact h' n (by omega) hn'

theorem Grown.advanced (h : Grown u v) (hc : v.cursor = u.cursor) : Advanced u v where
  toGrown := h
  cursor first hf := ⟨first, hc ▸ hf, .empty v⟩

theorem Advanced.refl (w : World) : Advanced w w := (Grown.refl w).advanced rfl

theorem Advanced.trans (huv : Advanced u v) (hvw : Advanced v w) : Advanced u w where
  toGrown := huv.toGrown.trans hvw.toGrown
  cursor first hf := by
    obtain ⟨last, hl, hc⟩ := huv.cursor first hf
    obtain ⟨next, hn, hc'⟩ := hvw.cursor last hl
    exact ⟨next, hn, (hc.later hvw.toGrown).append hc'⟩

end Relations

/-- The only slot guarantees what is to be shown of the whole run, and relies on
nobody else's moving the cursor. -/
def watcherRules (cfg : Config) : Rules (service cfg (watcherRuns.guarded abortsHandled)) World where
  world w := w
  inv _ := True
  rely _ w w' := Grown w w' ∧ w'.cursor = w.cursor
  guar _ := Advanced
  rest _ _ := True
  hist := Advanced
  rely_refl _ w := ⟨.refl w, rfl⟩
  rely_trans huv hvw := ⟨huv.1.trans hvw.1, hvw.2.trans huv.2⟩
  guar_refl _ w := .refl w
  guar_rely h _ _ _ := absurd rfl h
  rest_stable _ _ _ _ := trivial
  hist_refl := .refl
  hist_trans := Advanced.trans
  guar_hist _ _ h := h
  env_step _ he := by
    have hsur := EnvEvent.occur_surroundings he
    have hgrown : Grown _ _ := ⟨fun l h => by
      simpa only [World.recorded, hsur.withdrawals] using h, hsur.blocks⟩
    exact ⟨_, rfl, trivial, hgrown.advanced hsur.cursor, fun _ => ⟨hgrown, hsur.cursor⟩⟩

section Outline
variable {cfg : Config} {l : BurnLog}

/-- What survives whatever neither moves the cursor nor loses a row or block. -/
def Lasting (A : World → Prop) : Prop :=
  ∀ w w', Grown w w' → w'.cursor = w.cursor → A w → A w'

theorem Lasting.stable {A : World → Prop} (hA : Lasting A) : (watcherRules cfg).Stable () A :=
  fun w w' _ _ hw => hA w w' hw.1 hw.2

theorem recorded_lasting : Lasting fun w => w.recorded l := fun _ _ hw _ h => hw.rows l h

theorem Lasting.and {A B : World → Prop} (hA : Lasting A) (hB : Lasting B) :
    Lasting fun w => A w ∧ B w :=
  fun w w' hw hc h => ⟨hA w w' hw hc h.1, hB w w' hw hc h.2⟩

theorem Grown.insert (w : World) (d : WithdrawalDoc) : Grown w (w.insertWithdrawal d) where
  rows l h := by
    obtain ⟨e, he, hk⟩ := h
    exact ⟨e, List.mem_append_left _ he, hk⟩
  blocks := List.prefix_rfl

theorem cursor_create {A : World → Prop} (hA : Lasting A) {d : WithdrawalDoc}
    (hd : d.key = l.key) :
    (watcherRules cfg).Performs () A (.withdrawal (.create d))
      (Answered (fun _ w => A w ∧ w.recorded l) fun _ => True) := by
  refine Withdrawal.performs_create ?_ fun _ _ _ => trivial
  intro w _ h _
  have hw := Grown.insert w d
  refine ⟨_, rfl, trivial, hw.advanced rfl, ⟨hA _ _ hw rfl h, ?_⟩, trivial⟩
  exact ⟨_, List.mem_append_right _ (List.mem_singleton_self _), hd⟩

theorem cursor_enqueue {A B : World → Prop} (hA : Lasting A) (h : ∀ w, A w → B w)
    {job : ReleaseJob} :
    (watcherRules cfg).Performs () A (.addReleaseJob job)
      (Answered (fun _ => B) fun _ => True) := by
  refine Withdrawal.performs_addReleaseJob ?_ fun _ _ _ => trivial
  intro w _ hw
  have hgrown : Grown w (w.enqueueRelease job) := ⟨fun _ h => h, List.prefix_rfl⟩
  exact ⟨_, rfl, trivial, hgrown.advanced rfl, h _ (hA _ _ hgrown rfl hw), trivial⟩

/-- A pass over a burn does not disturb the scan. -/
def cursorBurnOutline (cfg : Config) (l : BurnLog) {A : World → Prop} (hA : Lasting A) :
    BurnOutline (watcherRules cfg) () cfg l where
  base := A
  recorded w := A w ∧ w.recorded l
  created _ _ w := A w ∧ w.recorded l
  base_stable := hA.stable
  recorded_stable := (hA.and recorded_lasting).stable
  created_stable _ _ := (hA.and recorded_lasting).stable
  base_rest _ _ _ := trivial
  recorded_rest _ _ _ := trivial
  created_rest _ _ _ _ _ := trivial
  find := by
    refine Withdrawal.performs_findOne ?_ (fun _ _ h => h) fun _ _ _ => trivial
    intro w d _ h hd hf
    simp only [Bool.and_eq_true, beq_iff_eq] at hf
    exact ⟨h, d, hd, Prod.ext hf.1 hf.2⟩
  validate := performs_validateAddress fun _ _ h => h
  clock := performs_dateNow
  daily _ := Withdrawal.performs_find (fun _ _ _ h _ => h) fun _ _ _ => trivial
  refuse := cursor_create hA rfl
  confirm _ _ := cursor_create hA rfl
  enqueue _ _ := cursor_enqueue (hA.and recorded_lasting) fun _ h => h
  notify _ := performs_webhook fun _ _ h => h

def cursorOrphanOutline (cfg : Config) : OrphanOutline (watcherRules cfg) () where
  base _ := True
  listed _ _ := True
  base_stable _ _ _ _ _ _ := trivial
  listed_stable _ _ _ _ _ _ _ := trivial
  base_rest _ _ _ := trivial
  listed_rest _ _ _ _ := trivial
  clock := performs_dateNow
  find _ := Withdrawal.performs_find (fun _ _ _ _ _ => trivial) fun _ _ _ => trivial
  enqueue _ _ := cursor_enqueue (fun _ _ _ _ _ => trivial) fun _ _ => trivial

theorem cursor_processLog {A : World → Prop} (hA : Lasting A) (log : Log) :
    (watcherRules cfg).Triple () A (processLog cfg log)
      (fun _ w => A w ∧ w.handled log = true) (fun _ _ => True) := by
  rw [processLog]
  cases hl : log.burnLog with
  | none =>
      refine .pure hA.stable ?_
      intro w _ h
      refine ⟨h, World.handled_iff.mpr ?_⟩
      intro l hl'
      rw [hl] at hl'
      cases hl'
  | some l =>
      refine ((cursorBurnOutline cfg l hA).recordBurn).weaken (fun _ _ h => h) ?_
        fun _ _ _ h => h
      intro _ w _ h
      refine ⟨h.1, World.handled_iff.mpr ?_⟩
      intro l' hl'
      rw [hl] at hl'
      cases hl'
      exact h.2

/-- The signal is read where the guard allows it. -/
theorem cursor_signal {A : World → Prop} (pending : List Log) :
    (watcherRules cfg).Performs () A (.signalAborted pending)
      (Answered (fun aborted w => A w ∧
        (aborted = true → ∀ log ∈ pending, w.handled log = true)) fun _ => True) := by
  refine performs ?_ ?_
  · intro w e _ _ hop
    cases hop
  · intro w x w' out _ h hmay hx
    cases hx
    refine ⟨w, rfl, trivial, .refl w, fun _ => ⟨h, ?_⟩, fun _ _ _ => trivial⟩
    intro (ha : w.aborted = true)
    have hc : (!w.aborted || pending.all w.handled) = true := Faults.guarded_may hmay
    simpa [ha] using hc

/-- Between `last`, where the cursor stands, and `toBlock` only the logs in
`pending` are left to handle. -/
structure Scanning (safeTip last toBlock : Int) (pending : List Log) (w : World) : Prop where
  cursor : w.cursor .base = some last
  tip : safeTip ≤ w.base.tip
  scanned : ∀ n : Nat, last < n → (n : Int) ≤ toBlock → ∀ log ∈ w.base.blockLogs n,
    log ∈ pending ∨ w.handled log = true

theorem Scanning.lasting {safeTip last toBlock : Int} (h : toBlock ≤ safeTip)
    (pending : List Log) : Lasting (Scanning safeTip last toBlock pending) := by
  intro w w' hw hc hs
  have htip := hs.tip
  refine ⟨hc ▸ hs.cursor, htip.trans (by exact_mod_cast hw.tip), ?_⟩
  intro n hn hn' log hlog
  rw [BaseChain.blockLogs_prefix hw.blocks (by omega)] at hlog
  cases hs.scanned n hn hn' log hlog with
  | inl hp => exact Or.inl hp
  | inr hd => exact Or.inr (hw.handled hd)

theorem Scanning.covered {safeTip last toBlock : Int} {w : World} (h : toBlock ≤ safeTip)
    (hs : Scanning safeTip last toBlock [] w) : Covered last toBlock w := by
  intro n hn hn'
  have htip := hs.tip
  refine ⟨by omega, ?_⟩
  exact fun log hlog => (hs.scanned n hn hn' log hlog).resolve_left List.not_mem_nil

/-- The logs are handled one by one; only a signal raised with nothing left to
record breaks the loop off. -/
theorem cursor_processLogs {safeTip last toBlock : Int} (h : toBlock ≤ safeTip)
    (pending : List Log) :
    (watcherRules cfg).Triple () (Scanning safeTip last toBlock pending)
      (processLogs cfg pending) (fun _ => Scanning safeTip last toBlock [])
      (fun _ _ => True) := by
  induction pending with
  | nil => exact .pure (Scanning.lasting h []).stable fun _ _ hs => hs
  | cons log logs ih =>
      have hlast : Lasting (Scanning safeTip last toBlock (log :: logs)) := .lasting h _
      have hdone : Lasting fun w => ∀ x ∈ log :: logs, w.handled x = true :=
        fun _ _ hw _ hs x hx => hw.handled (hs x hx)
      refine .bind (M := fun aborted w => Scanning safeTip last toBlock (log :: logs) w ∧
        (aborted = true → ∀ x ∈ log :: logs, w.handled x = true)) ?_ ?_
      · refine .step hlast.stable (fun _ _ _ => trivial) (cursor_signal _) ?_
        intro aborted w w' _ _ hw hs
        exact ⟨hlast w w' hw.1 hw.2 hs.1, fun ha => hdone w w' hw.1 hw.2 (hs.2 ha)⟩
      · intro aborted
        split
        · rename_i ha
          refine .pure ?_ ?_
          · intro w w' _ _ hw hs
            exact ⟨hlast w w' hw.1 hw.2 hs.1, fun ha => hdone w w' hw.1 hw.2 (hs.2 ha)⟩
          · intro w _ hs
            refine ⟨hs.1.cursor, hs.1.tip, ?_⟩
            intro n hn hn' x hx
            cases hs.1.scanned n hn hn' x hx with
            | inl hp => exact Or.inr (hs.2 ha x hp)
            | inr hd => exact Or.inr hd
        · refine .bind (M := fun _ => Scanning safeTip last toBlock logs) ?_ fun _ => ih
          refine (cursor_processLog hlast log).weaken (fun _ _ hs => hs.1) ?_
            fun _ _ _ hs => hs
          intro _ w _ hs
          refine ⟨hs.1.cursor, hs.1.tip, ?_⟩
          intro n hn hn' x hx
          cases hs.1.scanned n hn hn' x hx with
          | inl hp =>
              cases List.mem_cons.mp hp with
              | inl he => exact Or.inr (he ▸ hs.2)
              | inr hp => exact Or.inl hp
          | inr hd => exact Or.inr hd

/-- Where the cursor stands before a window. -/
structure Standing (safeTip last : Int) (w : World) : Prop where
  cursor : w.cursor .base = some last
  tip : safeTip ≤ w.base.tip

theorem Standing.lasting (safeTip last : Int) : Lasting (Standing safeTip last) := by
  intro w w' hw hc hs
  have htip := hs.tip
  exact ⟨hc ▸ hs.cursor, htip.trans (by exact_mod_cast hw.tip)⟩

theorem cursor_getLogs {safeTip last toBlock : Int} (h : toBlock ≤ safeTip) :
    (watcherRules cfg).Performs () (Standing safeTip last) (.getLogs (last + 1) toBlock)
      (Answered (Scanning safeTip last toBlock) fun _ => True) := by
  refine performs_read (fun _ => rfl) ?_ ?_ fun _ _ _ _ => trivial
  · intro w x w' hx
    cases hx
    rfl
  · intro w x _ hs hx
    cases hx
    have htip : safeTip ≤ w.base.tip := hs.tip
    refine ⟨hs.cursor, hs.tip, ?_⟩
    intro n hn hn' log hlog
    have hexists : n ≤ w.base.tip := by omega
    exact Or.inl (BaseChain.mem_getLogs (by omega) hn' hexists hlog)

/-- Every log of the window is handled, so the cursor may pass it. -/
theorem cursor_set {safeTip last toBlock : Int} (h : toBlock ≤ safeTip) :
    (watcherRules cfg).Performs () (Scanning safeTip last toBlock [])
      (.cursorSet .base toBlock)
      (Answered (fun _ => Standing safeTip toBlock) fun _ => True) := by
  refine performs (fun w _ _ _ _ _ => ⟨w, rfl, trivial, .refl w, trivial⟩) ?_
  intro w x w' out _ hs _ hx
  cases hx
  have hset : Function.update w.cursor .base (some toBlock) .base = some toBlock :=
    Function.update_self ..
  refine ⟨_, rfl, trivial, ⟨⟨fun _ h => h, List.prefix_rfl⟩, ?_⟩,
    fun _ => ⟨hset, hs.tip⟩, fun _ _ _ => trivial⟩
  intro first hf
  have hfirst : first = last := Option.some.inj (hf.symm.trans hs.cursor)
  subst hfirst
  exact ⟨toBlock, hset, (hs.covered h).later ⟨fun _ h => h, List.prefix_rfl⟩⟩

theorem cursor_scanWindows {safeTip : Int} (n : Nat) (last : Int) :
    (watcherRules cfg).Triple () (Standing safeTip last)
      (scanWindows cfg safeTip n (last + 1)) (fun _ _ => True) (fun _ _ => True) := by
  induction n generalizing last with
  | zero => exact .pure (Standing.lasting _ _).stable fun _ _ _ => trivial
  | succ n ih =>
      have hstanding : (watcherRules cfg).Stable () (Standing safeTip last) :=
        (Standing.lasting safeTip last).stable
      rw [scanWindows]
      split
      · rename_i hle
        have hto := windowTo_mem hle
        refine .bind (M := fun _ => Standing safeTip last) ?_ ?_
        · refine .step hstanding (fun _ _ _ => trivial) ?_ fun _ => hstanding
          refine (cursor_signal []).post ?_
          intro r w _ hr
          cases r with
          | ok _ => exact hr.1
          | error _ => trivial
        · intro aborted
          split
          · exact .pure hstanding fun _ _ _ => trivial
          · refine .bind (M := Scanning safeTip last (windowTo safeTip (last + 1))) ?_ ?_
            · exact .step hstanding (fun _ _ _ => trivial) (cursor_getLogs hto.2)
                fun logs => (Scanning.lasting hto.2 logs).stable
            · intro logs
              refine .bind (cursor_processLogs hto.2 logs) ?_
              intro _
              refine .bind (M := fun _ => Standing safeTip (windowTo safeTip (last + 1))) ?_
                fun _ => ih _
              exact .step (Scanning.lasting hto.2 []).stable (fun _ _ _ => trivial)
                (cursor_set hto.2) fun _ => (Standing.lasting _ _).stable
      · exact .pure hstanding fun _ _ _ => trivial

/-- The tip the tick has read is a block of the chain. -/
def TipRead (tip : Nat) (w : World) : Prop := tip ≤ w.base.tip

theorem tipRead_lasting (tip : Nat) : Lasting (TipRead tip) :=
  fun _ _ hw _ h => Nat.le_trans h hw.tip

theorem cursor_upsert (tip : Nat) (backfill : Int) :
    (watcherRules cfg).Performs () (TipRead tip) (.cursorUpsert .base backfill)
      (Answered (fun last => Standing tip last) fun _ => True) := by
  refine performs (fun w _ _ _ _ _ => ⟨w, rfl, trivial, .refl w, trivial⟩) ?_
  intro w x w' out _ (htip : tip ≤ w.base.tip) _ hx
  have htip' : (tip : Int) ≤ w.base.tip := by exact_mod_cast htip
  obtain ⟨last, hc, rfl, rfl⟩ | ⟨hc, rfl, rfl⟩ := effect_cursorUpsert hx
  · exact ⟨_, rfl, trivial, .refl _, fun _ => ⟨hc, htip'⟩, fun _ _ _ => trivial⟩
  · have hset : Function.update w.cursor .base (some backfill) .base = some backfill :=
      Function.update_self ..
    refine ⟨_, rfl, trivial, ⟨⟨fun _ h => h, List.prefix_rfl⟩, ?_⟩,
      fun _ => ⟨hset, htip'⟩, fun _ _ _ => trivial⟩
    intro first hf
    have hf' : w.cursor .base = some first := hf
    cases hc.symm.trans hf'

theorem cursor_tick (hconf : ∀ n, cfg.baseConfirmations.toBigInt = .ok n → 0 ≤ n) :
    (watcherRules cfg).Triple () (fun _ => True) (baseWatcherTick cfg) (fun _ _ => True)
      (fun _ _ => True) := by
  have htrue : (watcherRules cfg).Stable () fun _ => True := fun _ _ _ _ _ h => h
  refine .tryCatch (M := fun _ _ => True) ?_ fun _ => .pure htrue fun _ _ h => h
  refine .bind (cursorOrphanOutline cfg).reconcileOrphanWithdrawals ?_
  intro _
  refine .bind (M := TipRead) ?_ ?_
  · refine .step htrue (fun _ _ h => h) ?_ fun tip => (tipRead_lasting tip).stable
    refine performs_read (fun _ => rfl) ?_ ?_ fun _ _ _ _ => trivial
    · intro w x w' hx
      cases hx
      rfl
    · intro w x _ _ hx
      cases hx
      exact Nat.le_refl _
  · intro tip
    refine .bind (M := fun last => Standing tip last) ?_ ?_
    · exact .step (tipRead_lasting tip).stable (fun _ _ _ => trivial) (cursor_upsert tip _)
        fun last => (Standing.lasting _ last).stable
    · intro last
      refine .bind (M := fun n w => Standing tip last w ∧ 0 ≤ n) ?_ ?_
      · exact .ofExcept (Standing.lasting _ last).stable (fun n hn _ _ h => ⟨h, hconf n hn⟩)
          fun _ _ _ => trivial
      · intro n
        refine (cursor_scanWindows _ last).pre ?_
        intro w _ h
        have htip := h.1.tip
        exact ⟨h.1.cursor, by omega⟩

theorem cursor_startBaseWatcher
    (hconf : ∀ n, cfg.baseConfirmations.toBigInt = .ok n → 0 ≤ n) (rounds : Nat) :
    (watcherRules cfg).Triple () (fun _ => True) (startBaseWatcher cfg rounds)
      (fun _ _ => True) (fun _ _ => True) := by
  have htrue : (watcherRules cfg).Stable () fun _ => True := fun _ _ _ _ _ h => h
  induction rounds with
  | zero => exact .pure htrue fun _ _ h => h
  | succ rounds ih =>
      refine .bind (M := fun _ _ => True) ?_ ?_
      · refine .step htrue (fun _ _ h => h) ?_ fun _ => htrue
        refine (cursor_signal []).post ?_
        intro r _ _ _
        cases r <;> trivial
      · intro aborted
        split
        · exact .pure htrue fun _ _ h => h
        · exact .bind (cursor_tick hconf) fun _ => ih

end Outline

theorem cursor_starts {cfg : Config}
    (hconf : ∀ n, cfg.baseConfirmations.toBigInt = .ok n → 0 ≤ n) :
    (watcherRules cfg).Starts := by
  intro i t w _ _ hready
  cases t with
  | startBaseWatcher rounds => exact cursor_startBaseWatcher hconf rounds w trivial trivial
  | _ => cases hready

namespace Sample

def laterLog : Log := ⟨some ⟨10⟩, some 0, some 1, some burnLog.burn⟩

/-- Two burns in block 1, deep enough to be scanned. -/
def twoBurns : World where
  cursor := fun _ => some 0
  base := { blocks := [log, laterLog] :: List.replicate 20 [] }

end Sample

/-- The signal is raised while the first of two logs is being recorded. -/
def abortedScan : List (Event JsError Unit Task EnvEvent) :=
  .start () (.startBaseWatcher 1) :: List.replicate 9 (.step () .done) ++
    [.env .abort] ++ List.replicate 7 (.step () .done)

theorem cursor_passes_unrecorded : ∃ q,
    (service Sample.config watcherRuns).exec (.init Sample.twoBurns) abortedScan = some q ∧
    Sample.twoBurns.cursor .base = some 0 ∧ q.world.cursor .base = some 1 ∧
    ∃ log ∈ q.world.base.blockLogs 1, ∃ l, log.burnLog = some l ∧
      ∀ d ∈ q.world.withdrawals.docs, d.key ≠ l.key := by
  have h : ((service Sample.config watcherRuns).exec (.init Sample.twoBurns) abortedScan).map
      (fun q => (q.world.cursor .base, q.world.base.blockLogs 1,
        q.world.withdrawals.docs.map WithdrawalDoc.key)) =
      some (some 1, [Sample.log, Sample.laterLog], [Sample.burnLog.key]) := by decide +kernel
  obtain ⟨q, hq, hr⟩ := Option.map_eq_some_iff.mp h
  have hlogs : q.world.base.blockLogs 1 = [Sample.log, Sample.laterLog] :=
    congrArg (fun r => r.2.1) hr
  have hkeys : q.world.withdrawals.docs.map WithdrawalDoc.key = [Sample.burnLog.key] :=
    congrArg (fun r => r.2.2) hr
  refine ⟨q, hq, rfl, congrArg Prod.fst hr, Sample.laterLog, by simp [hlogs], _, rfl, ?_⟩
  intro d hd hk
  have hmem := List.mem_map_of_mem (f := WithdrawalDoc.key) hd
  rw [hkeys, List.mem_singleton, hk] at hmem
  exact absurd hmem (by decide)

/-- Between any two states of a run whose log loop meets the raised signal only
with nothing left to record, the cursor passes no burn without a row. -/
theorem cursor_passes_recorded (cfg : Config)
    (hconf : ∀ n, cfg.baseConfirmations.toBigInt = .ok n → 0 ≤ n) {w : World}
    {p q : Pool Op JsError World Unit} {es fs : List (Event JsError Unit Task EnvEvent)}
    (hp : (service cfg watcherRuns).exec (.init w) es = some p)
    (hcp : (service cfg watcherRuns).meets abortsHandled (.init w) es = true)
    (hq : (service cfg watcherRuns).exec p fs = some q)
    (hcq : (service cfg watcherRuns).meets abortsHandled p fs = true)
    {first last : Int} (hfirst : p.world.cursor .base = some first)
    (hlast : q.world.cursor .base = some last) {n : Nat} (hn : first < n)
    (hn' : (n : Int) ≤ last) {log : Log} (hlog : log ∈ q.world.base.blockLogs n)
    {l : BurnLog} (hl : log.burnLog = some l) :
    ∃ d ∈ q.world.withdrawals.docs, d.key = l.key := by
  have hinit : (watcherRules cfg).Good (.init w) w := .init rfl trivial fun _ => trivial
  have hexec := System.exec_guarded _ hp hcp
  have hexec' := System.exec_guarded _ hq hcq
  rw [service_guarded] at hexec hexec'
  obtain ⟨u, hu, _⟩ := hinit.exec (fun _ _ _ => trivial) (cursor_starts hconf) hexec
  obtain ⟨v, hv, hadv⟩ := hu.exec (fun _ _ _ => trivial) (cursor_starts hconf) hexec'
  have hpw : u = p.world := hu.world
  have hqw : v = q.world := hv.world
  subst hpw hqw
  obtain ⟨last', hlast', hcov⟩ := hadv.cursor first hfirst
  cases hlast.symm.trans hlast'
  exact World.handled_iff.mp ((hcov n hn hn').2 log hlog) l hl

/-- The first log is being recorded when the run dies; the second run raises no
signal and records both. -/
def restartedScan : List (Event JsError Unit Task EnvEvent) :=
  .start () (.startBaseWatcher 1) :: List.replicate 12 (.step () .done) ++
    [.kill (), .start () (.startBaseWatcher 1)] ++ List.replicate 22 (.step () .done)

theorem restarted_scan_passes_recorded : ∃ q,
    (service Sample.config watcherRuns).exec (.init Sample.twoBurns) restartedScan = some q ∧
    q.world.cursor .base = some 1 ∧
    ∃ d ∈ q.world.withdrawals.docs, d.key = (⟨10⟩, 0) := by
  have h : ((service Sample.config watcherRuns).exec (.init Sample.twoBurns) restartedScan).map
      (fun q => (q.world.cursor .base, q.world.base.blockLogs 1)) =
      some (some 1, [Sample.log, Sample.laterLog]) := by decide +kernel
  obtain ⟨q, hq, hr⟩ := Option.map_eq_some_iff.mp h
  have hcursor : q.world.cursor .base = some 1 := congrArg Prod.fst hr
  have hlogs : q.world.base.blockLogs 1 = [Sample.log, Sample.laterLog] := congrArg Prod.snd hr
  have hconf : ∀ n, Sample.config.baseConfirmations.toBigInt = .ok n → 0 ≤ n := by
    intro n hn
    cases hn
    decide
  refine ⟨q, hq, hcursor, ?_⟩
  have hlog : Sample.laterLog ∈ q.world.base.blockLogs 1 := by simp [hlogs]
  exact cursor_passes_recorded Sample.config hconf
    (show (service Sample.config watcherRuns).exec (.init Sample.twoBurns) [] = _ from rfl) rfl
    hq (by decide +kernel) rfl hcursor (show (0 : Int) < (1 : Nat) by decide) (by decide) hlog
    rfl

end FairBridge

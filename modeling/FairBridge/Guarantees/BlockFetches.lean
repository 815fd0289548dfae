import FairBridge.Rpc.Fair

/-!
A block is fetched whole and in order. The cursor hands every index to one worker only, and
a worker gives an index up only with its result in place or with a rejection.
-/

namespace FairBridge
namespace WorkerPool
variable {α β ε : Type} {items : List α} {task : α → Nat → Except ε β} {s : WorkerPool α β ε}

/-- The books of a pool, whatever workers are held where. -/
structure Accounted (items : List α) (task : α → Nat → Except ε β) (s : WorkerPool α β ε)
    (held : Nat → Option (PoolWorker ε)) : Prop where
  calls : s.calls = items.zipIdx.take s.cursor
  results : s.results.length = items.length
  awaits : ∀ w i, held w = some (.awaits i) → i < s.cursor ∧ i < items.length
  own : ∀ w w' i, held w = some (.awaits i) → held w' = some (.awaits i) → w = w'
  settled : ∀ i item, i < s.cursor → items[i]? = some item →
    (∃ w, held w = some (.awaits i)) ∨
    (∃ b, task item i = .ok b ∧ s.results[i]? = some (some b)) ∨
    ∃ e, task item i = .error e ∧ s.rejection ≠ none
  returned : ∀ w, held w = some .returned → items.length ≤ s.cursor
  rejected : ∀ w e, held w = some (.rejected e) → s.rejection ≠ none
  rejection : ∀ e, s.rejection = some e →
    ∃ i item, (item, i) ∈ s.calls ∧ task item i = .error e

variable {held : Nat → Option (PoolWorker ε)}

theorem mem_take_zipIdx {n i : Nat} {item : α} :
    (item, i) ∈ items.zipIdx.take n ↔ i < n ∧ items[i]? = some item := by
  simp only [List.mem_iff_getElem?, List.getElem?_take, List.getElem?_zipIdx, Nat.zero_add]
  constructor
  · intro h
    obtain ⟨j, hj⟩ := h
    split at hj
    · rename_i hlt
      obtain ⟨a, ha, hpair⟩ := Option.map_eq_some_iff.mp hj
      cases hpair
      exact ⟨hlt, ha⟩
    · cases hj
  · intro h
    exact ⟨i, by rw [if_pos h.1, h.2, Option.map_some]⟩

theorem Accounted.spawned (items : List α) (task : α → Nat → Except ε β) :
    Accounted items task { results := List.replicate items.length none } fun _ => none where
  calls := rfl
  results := List.length_replicate
  awaits _ _ h := by cases h
  own _ _ _ h := by cases h
  settled _ _ h := by cases h
  returned _ h := by cases h
  rejected _ _ h := by cases h
  rejection _ h := by cases h

/-- What a worker does up to its next await. -/
theorem takeNext_cases (items : List α) (s : WorkerPool α β ε) :
    (items.length ≤ s.cursor ∧
      s.takeNext items = (.returned, { s with cursor := s.cursor + 1 })) ∨
    ∃ item, items[s.cursor]? = some item ∧
      s.takeNext items = (.awaits s.cursor,
        { s with cursor := s.cursor + 1, calls := s.calls ++ [(item, s.cursor)] }) := by
  unfold takeNext
  cases h : items[s.cursor]? with
  | none => exact Or.inl ⟨List.getElem?_eq_none_iff.mp h, rfl⟩
  | some item => exact Or.inr ⟨item, rfl, rfl⟩

/-- A worker that has nothing in hand takes the next index or returns. -/
theorem Accounted.takeNext (h : Accounted items task s held) {w : Nat} (hw : held w = none) :
    Accounted items task (s.takeNext items).2
      (Function.update held w (some (s.takeNext items).1)) := by
  have hother : ∀ {x : PoolWorker ε} {v : Nat} {r : PoolWorker ε},
      Function.update held w (some x) v = some r → v = w ∧ x = r ∨ v ≠ w ∧ held v = some r := by
    intro x v r hv
    by_cases hvw : v = w
    · subst hvw
      rw [Function.update_self] at hv
      exact Or.inl ⟨rfl, Option.some.inj hv⟩
    · rw [Function.update_of_ne hvw] at hv
      exact Or.inr ⟨hvw, hv⟩
  have hkept : ∀ {x : PoolWorker ε} {v i : Nat}, held v = some (.awaits i) →
      Function.update held w (some x) v = some (.awaits i) := by
    intro x v i hv
    rw [Function.update_of_ne (fun he => by rw [he, hw] at hv; cases hv), hv]
  obtain ⟨hend, hnext⟩ | ⟨item, hitem, hnext⟩ := takeNext_cases items s
  · rw [hnext]
    refine ⟨?_, h.results, ?_, ?_, ?_, ?_, ?_, h.rejection⟩
    · have hlen : items.zipIdx.length ≤ s.cursor := by rwa [List.length_zipIdx]
      rw [h.calls, List.take_of_length_le hlen, List.take_of_length_le (Nat.le_succ_of_le hlen)]
    · intro v i hv
      obtain ⟨_, hx⟩ | ⟨_, hv⟩ := hother hv
      · cases hx
      · exact (h.awaits v i hv).imp_left Nat.lt_succ_of_lt
    · intro v v' i hv hv'
      obtain ⟨_, hx⟩ | ⟨_, hv⟩ := hother hv
      · cases hx
      · obtain ⟨_, hx⟩ | ⟨_, hv'⟩ := hother hv'
        · cases hx
        · exact h.own v v' i hv hv'
    · intro i item _ hitem
      have hlt : i < s.cursor := by
        have := (List.getElem?_eq_some_iff.mp hitem).1
        omega
      refine (h.settled i item hlt hitem).imp_left ?_
      intro hv
      obtain ⟨v, hv⟩ := hv
      exact ⟨v, hkept hv⟩
    · exact fun _ _ => Nat.le_succ_of_le hend
    · intro v e hv
      obtain ⟨_, hx⟩ | ⟨_, hv⟩ := hother hv
      · cases hx
      · exact h.rejected v e hv
  · rw [hnext]
    refine ⟨?_, h.results, ?_, ?_, ?_, ?_, ?_, ?_⟩
    · simp only
      rw [h.calls, List.take_add_one, List.getElem?_zipIdx, hitem, Option.map_some, Nat.zero_add]
      rfl
    · intro v i hv
      obtain ⟨_, hx⟩ | ⟨_, hv⟩ := hother hv
      · cases hx
        exact ⟨Nat.lt_succ_self _, (List.getElem?_eq_some_iff.mp hitem).1⟩
      · exact (h.awaits v i hv).imp_left Nat.lt_succ_of_lt
    · intro v v' i hv hv'
      obtain ⟨hvw, hx⟩ | ⟨_, hv⟩ := hother hv
      · obtain ⟨hvw', _⟩ | ⟨_, hv'⟩ := hother hv'
        · exact hvw.trans hvw'.symm
        · cases hx
          exact absurd (h.awaits v' _ hv').1 (Nat.lt_irrefl _)
      · obtain ⟨_, hx'⟩ | ⟨_, hv'⟩ := hother hv'
        · cases hx'
          exact absurd (h.awaits v _ hv).1 (Nat.lt_irrefl _)
        · exact h.own v v' i hv hv'
    · intro i item' hi hitem'
      by_cases hlast : i = s.cursor
      · subst hlast
        exact Or.inl ⟨w, Function.update_self w _ held⟩
      · have hlt : i < s.cursor := by simp only at hi; omega
        refine (h.settled i item' hlt hitem').imp_left ?_
        intro hv
        obtain ⟨v, hv⟩ := hv
        exact ⟨v, hkept hv⟩
    · intro v hv
      obtain ⟨_, hx⟩ | ⟨_, hv⟩ := hother hv
      · cases hx
      · exact Nat.le_succ_of_le (h.returned v hv)
    · intro v e hv
      obtain ⟨_, hx⟩ | ⟨_, hv⟩ := hother hv
      · cases hx
      · exact h.rejected v e hv
    · intro e he
      obtain ⟨i, item', hcall, htask⟩ := h.rejection e he
      exact ⟨i, item', List.mem_append_left _ hcall, htask⟩

/-- The call that a worker awaits resolves: the worker has nothing in hand, and the result is
in its place. -/
theorem Accounted.resolved (h : Accounted items task s held) {w i : Nat} {item : α} {b : β}
    (hw : held w = some (.awaits i)) (hitem : items[i]? = some item)
    (htask : task item i = .ok b) :
    Accounted items task { s with results := s.results.set i (some b) }
      (Function.update held w none) := by
  have hother : ∀ {v : Nat} {r : PoolWorker ε},
      Function.update held w none v = some r → v ≠ w ∧ held v = some r := by
    intro v r hv
    by_cases hvw : v = w
    · subst hvw
      rw [Function.update_self] at hv
      cases hv
    · rw [Function.update_of_ne hvw] at hv
      exact ⟨hvw, hv⟩
  refine ⟨h.calls, (List.length_set ..).trans h.results, fun v j hv => h.awaits v j (hother hv).2,
    fun v v' j hv hv' => h.own v v' j (hother hv).2 (hother hv').2, ?_,
    fun v hv => h.returned v (hother hv).2, fun v e hv => h.rejected v e (hother hv).2,
    h.rejection⟩
  intro j item' hj hitem'
  by_cases hji : j = i
  · subst hji
    cases hitem.symm.trans hitem'
    refine Or.inr (Or.inl ⟨b, htask, ?_⟩)
    have hlt : j < s.results.length := by
      rw [h.results]
      exact (List.getElem?_eq_some_iff.mp hitem).1
    simp only [List.getElem?_set, hlt, if_true]
  · obtain ⟨v, hv⟩ | ⟨b', htask', hb'⟩ | hrejected := h.settled j item' hj hitem'
    · refine Or.inl ⟨v, ?_⟩
      rw [Function.update_of_ne, hv]
      intro hvw
      subst hvw
      cases hv.symm.trans hw
      exact hji rfl
    · refine Or.inr (Or.inl ⟨b', htask', ?_⟩)
      simp only [List.getElem?_set, if_neg (Ne.symm hji), hb']
    · exact Or.inr (Or.inr hrejected)

theorem Accounted.rejects (h : Accounted items task s held) {w i : Nat} {item : α} {e : ε}
    (hw : held w = some (.awaits i)) (hitem : items[i]? = some item)
    (htask : task item i = .error e) :
    Accounted items task { s with rejection := s.rejection.or (some e) }
      (Function.update held w (some (.rejected e))) := by
  have hsome : s.rejection.or (some e) ≠ none := by
    cases s.rejection <;> simp
  have hother : ∀ {v : Nat} {r : PoolWorker ε}, (∀ e, r ≠ .rejected e) →
      Function.update held w (some (.rejected e)) v = some r → held v = some r := by
    intro v r hr hv
    by_cases hvw : v = w
    · subst hvw
      rw [Function.update_self] at hv
      exact absurd (Option.some.inj hv).symm (hr e)
    · rwa [Function.update_of_ne hvw] at hv
  have hawaits : ∀ {v j : Nat}, Function.update held w (some (.rejected e)) v =
      some (.awaits j) → held v = some (.awaits j) :=
    fun hv => hother (fun _ hr => by cases hr) hv
  refine ⟨h.calls, h.results, fun v j hv => h.awaits v j (hawaits hv),
    fun v v' j hv hv' => h.own v v' j (hawaits hv) (hawaits hv'), ?_,
    fun v hv => h.returned v (hother (fun _ hr => by cases hr) hv), fun _ _ _ => hsome, ?_⟩
  · intro j item' hj hitem'
    by_cases hji : j = i
    · subst hji
      cases hitem.symm.trans hitem'
      exact Or.inr (Or.inr ⟨e, htask, hsome⟩)
    · obtain ⟨v, hv⟩ | hdone | ⟨e', htask', _⟩ := h.settled j item' hj hitem'
      · refine Or.inl ⟨v, ?_⟩
        rw [Function.update_of_ne, hv]
        intro hvw
        subst hvw
        cases hv.symm.trans hw
        exact hji rfl
      · exact Or.inr (Or.inl hdone)
      · exact Or.inr (Or.inr ⟨e', htask', hsome⟩)
  · intro e' he'
    cases hr : s.rejection with
    | some e'' =>
        simp only [hr, Option.or_some, Option.some.injEq] at he'
        exact h.rejection e' (hr.trans (congrArg some he'))
    | none =>
        simp only [hr, Option.none_or, Option.some.injEq] at he'
        cases he'
        exact ⟨i, item, h.calls ▸ mem_take_zipIdx.mpr ⟨(h.awaits w i hw).1, hitem⟩, htask⟩

/-- The workers of a pool are where its list has them. -/
def Held (s : WorkerPool α β ε) (w : Nat) : Option (PoolWorker ε) := s.workers[w]?

theorem takeNext_workers (items : List α) (s : WorkerPool α β ε) :
    (s.takeNext items).2.workers = s.workers := by
  obtain ⟨_, h⟩ | ⟨_, _, h⟩ := takeNext_cases items s <;> rw [h]

theorem held_set {ws : List (PoolWorker ε)} {w : Nat} (hw : w < ws.length) (x : PoolWorker ε) :
    (fun v => (ws.set w x)[v]?) = Function.update (fun v => ws[v]?) w (some x) := by
  funext v
  by_cases hvw : v = w
  · subst hvw
    simp only [List.getElem?_set, if_true, hw, Function.update_self]
  · simp only [List.getElem?_set, if_neg (Ne.symm hvw), Function.update_of_ne hvw]

theorem held_append (ws : List (PoolWorker ε)) (x : PoolWorker ε) :
    (fun v => (ws ++ [x])[v]?) = Function.update (fun v => ws[v]?) ws.length (some x) := by
  funext v
  by_cases hvw : v = ws.length
  · subst hvw
    simp only [List.getElem?_concat_length, Function.update_self]
  · rw [Function.update_of_ne hvw, List.getElem?_append]
    split
    · rfl
    · have hx : [x].length ≤ v - ws.length := by
        rw [List.length_singleton]
        omega
      rw [List.getElem?_eq_none hx, List.getElem?_eq_none (by omega)]

/-- A pool that `n` workers were started for. -/
structure Sound (items : List α) (task : α → Nat → Except ε β) (n : Nat)
    (s : WorkerPool α β ε) : Prop where
  accounted : Accounted items task s s.Held
  workers : s.workers.length = n

/-- The books do not look at the list of workers. -/
theorem Accounted.withWorkers (h : Accounted items task s held) (ws : List (PoolWorker ε)) :
    Accounted items task { s with workers := ws } held :=
  ⟨h.calls, h.results, h.awaits, h.own, h.settled, h.returned, h.rejected, h.rejection⟩

theorem Sound.spawn {n : Nat} (hs : Sound items task n s) :
    Sound items task (n + 1) { (s.takeNext items).2 with
      workers := (s.takeNext items).2.workers ++ [(s.takeNext items).1] } := by
  have hnone : s.Held s.workers.length = none := List.getElem?_eq_none (Nat.le_refl _)
  have hnext := hs.accounted.takeNext hnone
  have hheld := held_append s.workers (s.takeNext items).1
  refine ⟨?_, ?_⟩
  · rw [takeNext_workers]
    exact (congrArg _ hheld).mpr (hnext.withWorkers _)
  · rw [takeNext_workers, List.length_append, List.length_singleton, hs.workers]

theorem sound_spawn (items : List α) (task : α → Nat → Except ε β) (n : Nat) :
    Sound items task n (WorkerPool.spawn items n) := by
  induction n with
  | zero => exact ⟨.spawned items task, rfl⟩
  | succ n ih => exact ih.spawn

/-- The two ways in which a call settles. -/
theorem settle_cases {w : Nat} {t : WorkerPool α β ε} (h : s.settle items task w = some t) :
    ∃ i item, s.Held w = some (.awaits i) ∧ items[i]? = some item ∧
      ((∃ b s', task item i = .ok b ∧ s' = { s with results := s.results.set i (some b) } ∧
        t = { (s'.takeNext items).2 with
          workers := s.workers.set w (s'.takeNext items).1 }) ∨
      ∃ e, task item i = .error e ∧ t = { s with
        workers := s.workers.set w (.rejected e)
        rejection := s.rejection.or (some e) }) := by
  unfold settle at h
  split at h
  · rename_i i hw
    obtain ⟨item, hitem, ht⟩ := Option.map_eq_some_iff.mp h
    refine ⟨i, item, hw, hitem, ?_⟩
    cases htask : task item i with
    | ok b =>
        rw [htask] at ht
        refine Or.inl ⟨b, _, rfl, rfl, ?_⟩
        rw [← ht]
        simp only [takeNext_workers]
    | error e =>
        rw [htask] at ht
        exact Or.inr ⟨e, rfl, ht.symm⟩
  · cases h

theorem Sound.settle {n w : Nat} {t : WorkerPool α β ε} (hs : Sound items task n s)
    (h : s.settle items task w = some t) : Sound items task n t := by
  obtain ⟨i, item, hw, hitem, hcase⟩ := settle_cases h
  have hlt : w < s.workers.length := (List.getElem?_eq_some_iff.mp hw).1
  obtain ⟨b, s', htask, rfl, rfl⟩ | ⟨e, htask, rfl⟩ := hcase
  · have hnext := (hs.accounted.resolved hw hitem htask).takeNext (Function.update_self w _ _)
    rw [Function.update_idem] at hnext
    refine ⟨?_, (List.length_set ..).trans hs.workers⟩
    exact (congrArg _ (held_set hlt _)).mpr (hnext.withWorkers _)
  · have hnext := hs.accounted.rejects hw hitem htask
    refine ⟨?_, (List.length_set ..).trans hs.workers⟩
    exact (congrArg _ (held_set hlt _)).mpr (hnext.withWorkers _)

/-- A call that settles is in flight no more, and at most one new one is. -/
theorem settle_counts {w : Nat} {t : WorkerPool α β ε} (h : s.settle items task w = some t) :
    t.inFlight + 1 + s.calls.length = t.calls.length + s.inFlight := by
  obtain ⟨i, item, hw, _, hcase⟩ := settle_cases h
  obtain ⟨hlt, hget⟩ := List.getElem?_eq_some_iff.mp hw
  have hpos : 0 < s.inFlight :=
    List.countP_pos_iff.mpr ⟨_, List.mem_of_getElem? hw, rfl⟩
  have hset : ∀ x : PoolWorker ε, (s.workers.set w x).countP PoolWorker.inFlight =
      s.inFlight - 1 + if x.inFlight then 1 else 0 := by
    intro x
    rw [List.countP_set hlt, hget]
    rfl
  obtain ⟨b, s', _, rfl, rfl⟩ | ⟨e, _, rfl⟩ := hcase
  · simp only [inFlight, hset]
    obtain ⟨_, hnext⟩ | ⟨item', _, hnext⟩ :=
      takeNext_cases items { s with results := s.results.set i (some b) }
    · rw [hnext]
      simp only [PoolWorker.inFlight, Bool.false_eq_true, if_false, inFlight] at hpos ⊢
      omega
    · rw [hnext]
      simp only [PoolWorker.inFlight, if_true, inFlight, List.length_append,
        List.length_singleton] at hpos ⊢
      omega
  · simp only [inFlight, hset, PoolWorker.inFlight, Bool.false_eq_true, if_false] at hpos ⊢
    omega

theorem spawn_counts (items : List α) (n : Nat) :
    (spawn (β := β) (ε := ε) items n).inFlight = (spawn (β := β) (ε := ε) items n).calls.length := by
  induction n with
  | zero => rfl
  | succ n ih =>
      simp only [spawn, inFlight, takeNext_workers, List.countP_append, List.countP_singleton]
      simp only [inFlight] at ih
      obtain ⟨_, hnext⟩ | ⟨item, _, hnext⟩ := takeNext_cases items (spawn (β := β) (ε := ε) items n)
      · rw [hnext, ih]
        rfl
      · rw [hnext, ih]
        simp only [PoolWorker.inFlight, if_true, List.length_append, List.length_singleton]

/-- What holds of a pool after any number of its calls have settled. -/
theorem run_sound {n : Nat} {ws : List Nat} {t : WorkerPool α β ε} (hs : Sound items task n s)
    (h : s.run items task ws = some t) :
    Sound items task n t ∧
      t.inFlight + ws.length + s.calls.length = t.calls.length + s.inFlight := by
  induction ws generalizing s with
  | nil =>
      cases h
      exact ⟨hs, by rw [List.length_nil]; omega⟩
  | cons w ws ih =>
      obtain ⟨r, hr, h⟩ := Option.bind_eq_some_iff.mp h
      obtain ⟨ht, hcount⟩ := ih (hs.settle hr) h
      have hstep := settle_counts hr
      refine ⟨ht, ?_⟩
      rw [List.length_cons]
      omega

/-- Once nothing is in flight the pool has an outcome. -/
theorem Sound.settles {n : Nat} (hs : Sound items task n s) (h : s.inFlight = 0) :
    s.outcome ≠ none := by
  unfold outcome
  cases hr : s.rejection with
  | some e => simp
  | none =>
      have hall : s.workers.all PoolWorker.fulfilled = true := by
        refine List.all_eq_true.mpr fun x hx => ?_
        obtain ⟨w, hw⟩ := List.mem_iff_getElem?.mp hx
        cases x with
        | returned => rfl
        | awaits i => exact absurd rfl (List.countP_eq_zero.mp h _ hx)
        | rejected e => exact absurd hr (hs.accounted.rejected w e hw)
      simp [hall]

theorem outcome_ok {rs : List (Option β)} (h : s.outcome = some (.ok rs)) :
    s.rejection = none ∧ (∀ w x, s.Held w = some x → x = .returned) ∧ rs = s.results := by
  unfold outcome at h
  split at h
  · cases h
  · rename_i hr
    split at h <;> cases h
    rename_i hall
    refine ⟨hr, fun w x hx => ?_, rfl⟩
    have hdone := List.all_eq_true.mp hall x (List.mem_of_getElem? hx)
    cases x with
    | returned => rfl
    | awaits _ | rejected _ => cases hdone

/-- A pool that resolves has called the task once for each index and has every result. -/
theorem Sound.resolves {limit : Nat} (hlimit : 1 ≤ limit)
    (hs : Sound items task (min limit items.length) s) {rs : List (Option β)}
    (h : s.outcome = some (.ok rs)) :
    s.calls = items.zipIdx ∧ rs.length = items.length ∧
      ∀ i item, items[i]? = some item → ∃ b, task item i = .ok b ∧ rs[i]? = some (some b) := by
  obtain ⟨hr, hreturned, rfl⟩ := outcome_ok h
  have hend : items.length ≤ s.cursor := by
    cases hitems : items.length with
    | zero => exact Nat.zero_le _
    | succ n =>
        have hlt : 0 < s.workers.length := by
          rw [hs.workers]
          omega
        have hfirst : s.Held 0 = some s.workers[0] := List.getElem?_eq_getElem hlt
        rw [hreturned 0 _ hfirst] at hfirst
        exact hitems ▸ hs.accounted.returned 0 hfirst
  refine ⟨?_, hs.accounted.results, fun i item hitem => ?_⟩
  · rw [hs.accounted.calls, List.take_of_length_le (by rwa [List.length_zipIdx])]
  · have hlt : i < s.cursor := by
      have := (List.getElem?_eq_some_iff.mp hitem).1
      omega
    obtain ⟨w, hw⟩ | hdone | ⟨_, _, hrejected⟩ := hs.accounted.settled i item hlt hitem
    · cases hreturned w _ hw
    · exact hdone
    · exact absurd hr hrejected

/-- What a pool owes after the calls of `ws` have settled. -/
structure Correct (items : List α) (limit : Nat) (task : α → Nat → Except ε β) (ws : List Nat)
    (s : WorkerPool α β ε) : Prop where
  /-- Never more than `limit` calls are in flight. -/
  bounded : s.inFlight ≤ limit
  /-- The task was called for the first so many items, once for each. -/
  once : ∃ n, s.calls = items.zipIdx.take n
  /-- No call settles more than once, and any that is in flight can. -/
  finite : ws.length ≤ items.length
  enabled : ∀ w i : Nat, s.workers[w]? = some (.awaits i) → (s.settle items task w).isSome = true
  settles : s.inFlight = 0 → s.outcome ≠ none
  resolves : ∀ rs, s.outcome = some (.ok rs) →
    s.calls = items.zipIdx ∧ rs.length = items.length ∧
      ∀ i item, items[i]? = some item → ∃ b, task item i = .ok b ∧ rs[i]? = some (some b)
  /-- A call that has settled with a rejection rejects the whole. -/
  rejects : ∀ i item e, (item, i) ∈ s.calls → (∀ w : Nat, s.workers[w]? ≠ some (.awaits i)) →
    task item i = .error e → ∃ e', s.outcome = some (.error e')
  rejection : ∀ e, s.outcome = some (.error e) →
    ∃ i item, (item, i) ∈ s.calls ∧ task item i = .error e

theorem outcome_error {e : ε} : s.outcome = some (.error e) ↔ s.rejection = some e := by
  unfold outcome
  cases s.rejection with
  | some e' => simp
  | none =>
      simp only [reduceCtorEq, iff_false]
      split <;> simp

theorem mapWithConcurrency_correct (items : List α) {limit : Nat} (hlimit : 1 ≤ limit)
    (task : α → Nat → Except ε β) {ws : List Nat}
    (hs : (mapWithConcurrency β ε items limit).run items task ws = some s) :
    s.Correct items limit task ws := by
  obtain ⟨hsound, hcount⟩ := run_sound (sound_spawn items task _) hs
  have hstart := spawn_counts (β := β) (ε := ε) items (min limit items.length)
  have hcalls : s.calls.length ≤ items.length := by
    rw [hsound.accounted.calls, List.length_take, List.length_zipIdx]
    exact Nat.min_le_right _ _
  refine ⟨?_, ⟨_, hsound.accounted.calls⟩, ?_, ?_, hsound.settles,
    fun rs => hsound.resolves hlimit, ?_, fun e he =>
      hsound.accounted.rejection e (outcome_error.mp he)⟩
  · have hle := List.countP_le_length (p := PoolWorker.inFlight) (l := s.workers)
    rw [hsound.workers] at hle
    exact hle.trans (Nat.min_le_left _ _)
  · change _ + ws.length + (spawn items _).calls.length = _ + (spawn items _).inFlight at hcount
    omega
  · intro w i hw
    have hitem := List.getElem?_eq_getElem (hsound.accounted.awaits w i hw).2
    simp only [settle, hw, hitem, Option.map_some, Option.isSome_some]
  · intro i item e hcall hsettled htask
    obtain ⟨hlt, hitem⟩ := mem_take_zipIdx.mp (hsound.accounted.calls ▸ hcall)
    obtain ⟨w, hw⟩ | ⟨b, hb, _⟩ | ⟨_, _, hrejected⟩ := hsound.accounted.settled i item hlt hitem
    · exact absurd hw (hsettled w)
    · cases htask.symm.trans hb
    · obtain ⟨e', he'⟩ := Option.ne_none_iff_exists'.mp hrejected
      exact ⟨e', outcome_error.mpr he'⟩

end WorkerPool

namespace BlockFetch
variable {ε : Type} {rpc : FairRpc ε} {height : Nat} {f : BlockFetch ε}

/-- Where a fetch has got to, it got with the node's answers. -/
def Fetched (rpc : FairRpc ε) (height : Nat) : BlockFetch ε → Prop
  | .hash | .rejected _ => True
  | .block blockHash => rpc.getblockhash height = .ok blockHash
  | .txs rawBlock pool => ∃ blockHash, rpc.getblockhash height = .ok blockHash ∧
      rpc.getblock blockHash = .ok rawBlock ∧
      pool.Sound rawBlock.tx rpc.fetchTx (min perTxFetchConcurrency rawBlock.tx.length)

theorem Fetched.next {answer : Option Nat} {g : BlockFetch ε} (hf : Fetched rpc height f)
    (h : f.next rpc height answer = some g) : Fetched rpc height g := by
  cases f with
  | hash =>
      cases answer with
      | some _ => cases h
      | none =>
          cases Option.some.inj h
          cases hhash : rpc.getblockhash height with
          | ok blockHash => exact hhash
          | error e => trivial
  | block blockHash =>
      cases answer with
      | some _ => cases h
      | none =>
          cases Option.some.inj h
          cases hblock : rpc.getblock blockHash with
          | ok rawBlock =>
              exact ⟨blockHash, hf, hblock, WorkerPool.sound_spawn rawBlock.tx rpc.fetchTx _⟩
          | error e => trivial
  | txs rawBlock pool =>
      cases answer with
      | none => cases h
      | some w =>
          obtain ⟨t, ht, rfl⟩ := Option.map_eq_some_iff.mp h
          obtain ⟨blockHash, hhash, hblock, hsound⟩ := hf
          exact ⟨blockHash, hhash, hblock, hsound.settle ht⟩
  | rejected e => cases h

theorem Fetched.run {answers : List (Option Nat)} {g : BlockFetch ε}
    (hf : Fetched rpc height f) (h : f.run rpc height answers = some g) :
    Fetched rpc height g := by
  induction answers generalizing f with
  | nil =>
      cases h
      exact hf
  | cons answer answers ih =>
      obtain ⟨r, hr, h⟩ := Option.bind_eq_some_iff.mp h
      exact ih (hf.next hr) h

/-- A fetch that resolves has every transaction of the node's block, in its place. -/
theorem Fetched.complete {block : BlockVerbose} (hf : Fetched rpc height f)
    (h : f.outcome = some (.ok block)) : ∃ blockHash rawBlock,
      rpc.getblockhash height = .ok blockHash ∧ rpc.getblock blockHash = .ok rawBlock ∧
      block.tx.length = rawBlock.tx.length ∧ ∀ i txid, rawBlock.tx[i]? = some txid →
        ∃ tx, rpc.fetchTx txid i = .ok tx ∧ block.tx[i]? = some (some tx) := by
  cases f with
  | hash | block _ | rejected _ => cases h
  | txs rawBlock pool =>
      obtain ⟨blockHash, hhash, hblock, hsound⟩ := hf
      obtain ⟨r, hr, hblockTx⟩ := Option.map_eq_some_iff.mp h
      cases r with
      | error e => cases hblockTx
      | ok decodedTxs =>
          cases hblockTx
          exact ⟨blockHash, rawBlock, hhash, hblock, (hsound.resolves (by decide) hr).2⟩

end BlockFetch

namespace Sample

/-- Seven fetches by three workers, the last one first. -/
def fetchOrder : List Nat := [2, 1, 0, 0, 2, 1, 0]

def fetchItems : List Nat := [10, 20, 30, 40, 50, 60, 70]

def fetchTask (item index : Nat) : Except String Nat := .ok (item + index)

end Sample

end FairBridge

import FairBridge.Store.Collection

/-!
The atomic queries of a document store, and what each of them can do to a
collection. An update writes one document that its filter accepts, a creation
appends one document, and either raises an error instead of breaking the
unique index.
-/

namespace Store

/-- A query answered by a `β`. Updates return the document after the update. -/
inductive Query (D U : Type) : Type → Type where
  | findOne (filter : D → Bool) (sort : Option (D → Nat)) : Query D U (Option D)
  | find (filter : D → Bool) (limit : Option Nat) : Query D U (List D)
  | findOneAndUpdate (filter : D → Bool) (sort : Option (D → Nat)) (set : U) :
      Query D U (Option D)
  | updateOne (filter : D → Bool) (set : U) : Query D U Unit
  | create (doc : D) : Query D U D

/-- What the store raises when it refuses to write. -/
structure Refusals (ε : Type) where
  duplicate : ε
  invalid : ε

variable {D U K ε β : Type} {S : Schema D U K} [DecidableEq K]

namespace Collection

def update (c : Collection S) (duplicate : ε) (filter : D → Bool)
    (sort : Option (D → Nat)) (u : U) : Except ε (Option D) × Collection S :=
  match pick filter sort c.docs with
  | none => (.ok none, c)
  | some d =>
      -- an update that leaves the key alone is not checked against the index
      if S.key (S.set u d) ≠ S.key d ∧ c.clashes (S.set u d) = true then
        (.error duplicate, c)
      else (.ok (some (S.set u d)), c.modify (S.id d) u)

def create (c : Collection S) (refusals : Refusals ε) (now : Nat) (d : D) :
    Except ε D × Collection S :=
  if S.valid d = false then (.error refusals.invalid, c)
  else if c.clashes (S.assign c.nextId now d) then (.error refusals.duplicate, c)
  else (.ok (S.assign c.nextId now d), c.insert now d)

end Collection

def Query.run (refusals : Refusals ε) (now : Nat) (c : Collection S) :
    Query D U β → Except ε β × Collection S
  | .findOne filter sort => (.ok (pick filter sort c.docs), c)
  | .find filter none => (.ok (c.docs.filter filter), c)
  | .find filter (some n) => (.ok ((c.docs.filter filter).take n), c)
  | .findOneAndUpdate filter sort u => c.update refusals.duplicate filter sort u
  | .updateOne filter u =>
      ((c.update refusals.duplicate filter none u).1.map fun _ => (),
        (c.update refusals.duplicate filter none u).2)
  | .create d => c.create refusals now d

namespace Collection
theorem update_cases (c : Collection S) (duplicate : ε) (filter : D → Bool)
    (sort : Option (D → Nat)) (u : U) :
    (pick filter sort c.docs = none ∧ c.update duplicate filter sort u = (.ok none, c)) ∨
    (∃ d, c.get (S.id d) = some d ∧ filter d = true ∧ pick filter sort c.docs = some d ∧
      S.key (S.set u d) ≠ S.key d ∧
      c.update duplicate filter sort u = (.error duplicate, c)) ∨
    (∃ d, c.get (S.id d) = some d ∧ filter d = true ∧ pick filter sort c.docs = some d ∧
      (S.key (S.set u d) = S.key d ∨ c.clashes (S.set u d) = false) ∧
      c.update duplicate filter sort u =
        (.ok (some (S.set u d)), c.modify (S.id d) u)) := by
  cases h : pick filter sort c.docs with
  | none => exact Or.inl ⟨rfl, by simp [update, h]⟩
  | some d =>
      have hd := pick_some h
      refine Or.inr ?_
      by_cases hk : S.key (S.set u d) ≠ S.key d ∧ c.clashes (S.set u d) = true
      · exact Or.inl ⟨d, get_of_mem hd.1, hd.2, rfl, hk.1, by simp [update, h, hk]⟩
      · refine Or.inr ⟨d, get_of_mem hd.1, hd.2, rfl, ?_, by simp [update, h, hk]⟩
        by_cases he : S.key (S.set u d) = S.key d
        · exact Or.inl he
        · exact Or.inr (by simpa [he] using hk)

/-- The row that an update reaches goes on to what is set, all others are left. -/
theorem update_rows {R : D → D → Prop} {filter : D → Bool} {u : U} (c : Collection S)
    (duplicate : ε) (sort : Option (D → Nat))
    (h : ∀ d, c.get (S.id d) = some d → filter d = true → R d (S.set u d)) {i : Nat} {d : D}
    (hd : c.get i = some d) :
    ∃ d', (c.update duplicate filter sort u).2.get i = some d' ∧ (d' = d ∨ R d d') := by
  obtain ⟨_, hc⟩ | ⟨_, _, _, _, _, hc⟩ | ⟨e, he, hfilter, _, _, hc⟩ :=
    c.update_cases duplicate filter sort u
  · exact ⟨d, by rw [hc, hd], Or.inl rfl⟩
  · exact ⟨d, by rw [hc, hd], Or.inl rfl⟩
  · rw [hc, get_modify]
    split
    · rename_i hi
      rw [← hi, hd] at he
      cases he
      refine ⟨S.set u d, by rw [← hi, hd]; rfl, Or.inr (h d ?_ hfilter)⟩
      rw [← hi]
      exact hd
    · exact ⟨d, hd, Or.inl rfl⟩

theorem update_none (c : Collection S) (duplicate : ε) (filter : D → Bool)
    (sort : Option (D → Nat)) (u : U) {i : Nat} (h : c.get i = none) :
    (c.update duplicate filter sort u).2.get i = none := by
  obtain ⟨_, hc⟩ | ⟨_, _, _, _, _, hc⟩ | ⟨e, he, _, _, _, hc⟩ :=
    c.update_cases duplicate filter sort u
  · rw [hc, h]
  · rw [hc, h]
  · rw [hc, get_modify]
    split
    · rename_i hi
      rw [← hi, h] at he
      cases he
    · exact h

/-- An update addressed by identifier that does not touch the unique key. -/
theorem update_byId (c : Collection S) (duplicate : ε) (i : Nat) (cond : D → Bool)
    (u : U) (hkey : ∀ d, S.key (S.set u d) = S.key d) :
    c.update duplicate (fun d => S.id d == i && cond d) none u =
      match (c.get i).filter cond with
      | none => (.ok none, c)
      | some d => (.ok (some (S.set u d)), c.modify i u) := by
  unfold update
  rw [pick_byId]
  cases h : (c.get i).filter cond with
  | none => rfl
  | some d =>
      have hd : c.get i = some d := (Option.filter_eq_some_iff.mp h).1
      simp [hkey, get_id hd]

/-- An update addressed by identifier that may touch the unique key. -/
theorem update_byId_cases (c : Collection S) (duplicate : ε) (i : Nat) (cond : D → Bool) (u : U) :
    ((c.get i).filter cond = none ∧
      c.update duplicate (fun d => S.id d == i && cond d) none u = (.ok none, c)) ∨
    c.update duplicate (fun d => S.id d == i && cond d) none u = (.error duplicate, c) ∨
    ∃ d, c.get i = some d ∧ cond d = true ∧
      (S.key (S.set u d) = S.key d ∨ c.clashes (S.set u d) = false) ∧
      c.update duplicate (fun d => S.id d == i && cond d) none u =
        (.ok (some (S.set u d)), c.modify i u) := by
  cases hp : (c.get i).filter cond with
  | none => exact Or.inl ⟨rfl, by simp [update, pick_byId, hp]⟩
  | some d =>
      obtain ⟨hd, hc⟩ := Option.filter_eq_some_iff.mp hp
      refine Or.inr ?_
      by_cases hk : S.key (S.set u d) ≠ S.key d ∧ c.clashes (S.set u d) = true
      · exact Or.inl (by simp [update, pick_byId, hp, hk])
      · refine Or.inr ⟨d, hd, hc, ?_, by simp [update, pick_byId, hp, hk, get_id hd]⟩
        by_cases he : S.key (S.set u d) = S.key d
        · exact Or.inl he
        · exact Or.inr (by simpa [he] using hk)

/-- An update addressed by identifier alone. -/
theorem run_updateById (refusals : Refusals ε) (now : Nat) (c : Collection S) (i : Nat)
    (u : U) (hkey : ∀ d, S.key (S.set u d) = S.key d) :
    (Query.updateOne (fun d => S.id d == i && true) u).run refusals now c =
      (.ok (), c.modify i u) := by
  rw [Query.run, update_byId c _ i (fun _ => true) u hkey]
  cases h : c.get i with
  | none => simp [Option.filter, Except.map, modify_of_none h]
  | some d => simp [Option.filter, Except.map]

theorem create_cases (c : Collection S) (refusals : Refusals ε) (now : Nat) (d : D) :
    (∃ e, c.create refusals now d = (.error e, c) ∧
      (e = refusals.invalid ∨
        e = refusals.duplicate ∧ c.clashes (S.assign c.nextId now d) = true)) ∨
    (S.valid d = true ∧ c.clashes (S.assign c.nextId now d) = false ∧
      c.create refusals now d = (.ok (S.assign c.nextId now d), c.insert now d)) := by
  cases hv : S.valid d with
  | false => exact Or.inl ⟨refusals.invalid, by simp [create, hv], Or.inl rfl⟩
  | true =>
      cases hc : c.clashes (S.assign c.nextId now d) with
      | true => exact Or.inl ⟨refusals.duplicate, by simp [create, hv, hc], Or.inr ⟨rfl, rfl⟩⟩
      | false => exact Or.inr ⟨rfl, rfl, by simp [create, hv, hc]⟩

theorem clashes_false {c : Collection S} {d : D} (h : c.clashes d = false) {k : K} (hk : S.key d = some k)
    {e : D} (he : e ∈ c.docs) (hek : S.key e = some k) : S.id e = S.id d := by
  by_contra hne
  have : c.clashes d = true := by
    simp only [clashes, hk, Option.isSome_some, Bool.true_and, List.any_eq_true]
    exact ⟨e, he, by simp [hne, hek]⟩
  rw [h] at this
  cases this

theorem clashes_true {c : Collection S} {d : D} (h : c.clashes d = true) :
    ∃ e ∈ c.docs, S.key e = S.key d := by
  simp only [clashes, Bool.and_eq_true, List.any_eq_true, beq_iff_eq] at h
  obtain ⟨_, e, he, hk⟩ := h
  exact ⟨e, he, hk.2⟩

/-- At most one document has the unique key `k`. -/
def UniqueAt (c : Collection S) (k : K) : Prop :=
  ∀ d ∈ c.docs, ∀ e ∈ c.docs, S.key d = some k → S.key e = some k → S.id d = S.id e

theorem UniqueAt.modify {c : Collection S} {k : K} {d : D} {u : U} (h : c.UniqueAt k)
    (hd : c.get (S.id d) = some d)
    (hkey : S.key (S.set u d) = S.key d ∨ c.clashes (S.set u d) = false) :
    (c.modify (S.id d) u).UniqueAt k := by
  have hnew : ∀ e ∈ c.docs, S.key (S.set u d) = some k → S.key e = some k →
      S.id e = S.id (S.set u d) := by
    intro e he hk hek
    cases hkey with
    | inl hsame => rw [S.id_set, h e he d (get_mem hd) hek (hsame ▸ hk)]
    | inr hclash => exact clashes_false hclash hk he hek
  intro e he f hf hek hfk
  rw [mem_modify] at he hf
  obtain ⟨x, hx, rfl⟩ | ⟨he, _⟩ := he <;> obtain ⟨y, hy, rfl⟩ | ⟨hf, _⟩ := hf
  · rw [Option.some.inj (hx.symm.trans hy)]
  · cases hd.symm.trans hx
    exact (hnew f hf hek hfk).symm
  · cases hd.symm.trans hy
    exact hnew e he hfk hek
  · exact h e he f hf hek hfk

theorem UniqueAt.insert {c : Collection S} {k : K} {d : D} {now : Nat} (h : c.UniqueAt k)
    (hkey : S.key (S.assign c.nextId now d) ≠ some k ∨
      c.clashes (S.assign c.nextId now d) = false) : (c.insert now d).UniqueAt k := by
  have hnew : ∀ e ∈ c.docs, S.key (S.assign c.nextId now d) = some k → S.key e = some k →
      S.id e = S.id (S.assign c.nextId now d) := by
    intro e he hk hek
    cases hkey with
    | inl hother => exact absurd hk hother
    | inr hclash => exact clashes_false hclash hk he hek
  intro e he f hf hek hfk
  have he := List.mem_append.mp he
  have hf := List.mem_append.mp hf
  cases he with
  | inl he =>
      cases hf with
      | inl hf => exact h e he f hf hek hfk
      | inr hf =>
          obtain rfl := List.mem_singleton.mp hf
          exact hnew e he hfk hek
  | inr he =>
      obtain rfl := List.mem_singleton.mp he
      cases hf with
      | inl hf => exact (hnew f hf hek hfk).symm
      | inr hf => rw [List.mem_singleton.mp hf]

end Collection

/-- No query breaks the unique index. -/
theorem Query.run_unique (refusals : Refusals ε) (now : Nat) {c : Collection S} {k : K}
    (q : Query D U β) (h : c.UniqueAt k) : (q.run refusals now c).2.UniqueAt k := by
  have update : ∀ filter sort u, (c.update refusals.duplicate filter sort u).2.UniqueAt k := by
    intro filter sort u
    obtain ⟨_, hc⟩ | ⟨_, _, _, _, _, hc⟩ | ⟨d, hd, _, _, hkey, hc⟩ :=
      c.update_cases refusals.duplicate filter sort u
    · rw [hc]
      exact h
    · rw [hc]
      exact h
    · rw [hc]
      exact h.modify hd hkey
  cases q with
  | findOne _ _ => exact h
  | find _ limit => cases limit <;> exact h
  | findOneAndUpdate filter sort u => exact update filter sort u
  | updateOne filter u => exact update filter none u
  | create doc =>
      obtain ⟨_, hc, _⟩ | ⟨_, hclash, hc⟩ := c.create_cases refusals now doc <;>
        simp only [Query.run, hc]
      · exact h
      · exact h.insert (.inr hclash)

/-- No query loses a document or what every update keeps of it. -/
theorem Query.run_keeps {P : D → Prop} (hset : ∀ u d, P d → P (S.set u d))
    (refusals : Refusals ε) (now : Nat) {c : Collection S} (q : Query D U β) {i : Nat} {d : D}
    (h : c.get i = some d) (hd : P d) :
    ∃ e, (q.run refusals now c).2.get i = some e ∧ P e := by
  have update : ∀ filter sort u,
      ∃ e, (c.update refusals.duplicate filter sort u).2.get i = some e ∧ P e := by
    intro filter sort u
    rcases c.update_cases refusals.duplicate filter sort u with
      ⟨_, hc⟩ | ⟨_, _, _, _, _, hc⟩ | ⟨e, _, _, _, _, hc⟩ <;> rw [hc]
    · exact ⟨d, h, hd⟩
    · exact ⟨d, h, hd⟩
    · rw [Collection.get_modify]
      split
      · rename_i hi
        rw [← hi, h]
        exact ⟨_, rfl, hset u d hd⟩
      · exact ⟨d, h, hd⟩
  cases q with
  | findOne _ _ => exact ⟨d, h, hd⟩
  | find _ limit => cases limit <;> exact ⟨d, h, hd⟩
  | findOneAndUpdate filter sort u => exact update filter sort u
  | updateOne filter u => exact update filter none u
  | create doc =>
      rcases c.create_cases refusals now doc with ⟨_, hc, _⟩ | ⟨_, _, hc⟩ <;>
        simp only [Query.run, hc]
      · exact ⟨d, h, hd⟩
      · rw [Collection.get_insert, if_neg (Nat.ne_of_lt (Collection.get_lt h))]
        exact ⟨d, h, hd⟩

/-- A document that a query leaves was there before, or it is the one that was created. -/
theorem Query.run_origin {γ : Type} {f : D → γ} (hset : ∀ u d, f (S.set u d) = f d)
    (refusals : Refusals ε) (now : Nat) {c : Collection S} (q : Query D U β) {e : D}
    (he : e ∈ (q.run refusals now c).2.docs) :
    (∃ d ∈ c.docs, S.id d = S.id e ∧ f d = f e) ∨ S.id e = c.nextId := by
  have update : ∀ filter sort u, e ∈ (c.update refusals.duplicate filter sort u).2.docs →
      ∃ d ∈ c.docs, S.id d = S.id e ∧ f d = f e := by
    intro filter sort u he
    obtain ⟨_, hc⟩ | ⟨_, _, _, _, _, hc⟩ | ⟨d, hd, _, _, _, hc⟩ :=
      c.update_cases refusals.duplicate filter sort u <;> rw [hc] at he
    · exact ⟨e, he, rfl, rfl⟩
    · exact ⟨e, he, rfl, rfl⟩
    · rw [Collection.mem_modify] at he
      obtain ⟨d', hd', rfl⟩ | ⟨he, _⟩ := he
      · exact ⟨d', Collection.get_mem hd', (S.id_set u d').symm, (hset u d').symm⟩
      · exact ⟨e, he, rfl, rfl⟩
  cases q with
  | findOne _ _ => exact Or.inl ⟨e, he, rfl, rfl⟩
  | find _ limit => cases limit <;> exact Or.inl ⟨e, he, rfl, rfl⟩
  | findOneAndUpdate filter sort u => exact Or.inl (update filter sort u he)
  | updateOne filter u => exact Or.inl (update filter none u he)
  | create doc =>
      obtain ⟨_, hc, _⟩ | ⟨_, _, hc⟩ := c.create_cases refusals now doc <;>
        simp only [Query.run, hc] at he
      · exact Or.inl ⟨e, he, rfl, rfl⟩
      · obtain he | he := List.mem_append.mp he
        · exact Or.inl ⟨e, he, rfl, rfl⟩
        · rw [List.mem_singleton.mp he]
          exact Or.inr (S.id_assign _ _ _)

/-- The query creates a document. -/
def Query.isCreate : Query D U β → Bool
  | .create _ => true
  | _ => false

/-- Identifiers are handed out in order, by creations alone. -/
theorem Query.run_nextId (refusals : Refusals ε) (now : Nat) (c : Collection S)
    (q : Query D U β) : c.nextId ≤ (q.run refusals now c).2.nextId ∧
      (q.isCreate = false → (q.run refusals now c).2.nextId = c.nextId) := by
  have update : ∀ filter sort u,
      (c.update refusals.duplicate filter sort u).2.nextId = c.nextId := by
    intro filter sort u
    obtain ⟨_, hc⟩ | ⟨_, _, _, _, _, hc⟩ | ⟨_, _, _, _, _, hc⟩ :=
      c.update_cases refusals.duplicate filter sort u <;> rw [hc]
    rfl
  cases q with
  | findOne _ _ => exact ⟨Nat.le_refl _, fun _ => rfl⟩
  | find _ limit => cases limit <;> exact ⟨Nat.le_refl _, fun _ => rfl⟩
  | findOneAndUpdate filter sort u =>
      exact ⟨Nat.le_of_eq (update filter sort u).symm, fun _ => update filter sort u⟩
  | updateOne filter u =>
      exact ⟨Nat.le_of_eq (update filter none u).symm, fun _ => update filter none u⟩
  | create doc =>
      refine ⟨?_, by rintro ⟨⟩⟩
      obtain ⟨_, hc, _⟩ | ⟨_, _, hc⟩ := c.create_cases refusals now doc <;>
        simp only [Query.run, hc]
      · exact Nat.le_refl _
      · exact Nat.le_succ _

end Store

import Mathlib.Data.List.Nodup
import Mathlib.Algebra.BigOperators.Group.List.Basic
import Mathlib.Tactic.Ring

/-!
Document collections with unique identifiers and at most one unique index.
Each query is one atomic operation. The store assigns identifiers when a
document is created and never reuses one, and no query removes a document.
-/

namespace Store

/-- The documents `D` of a collection, its update operators `U` and the values
`K` of its unique index. Only documents that are `valid` can be created. -/
structure Schema (D U K : Type) where
  id : D → Nat
  assign : Nat → Nat → D → D
  set : U → D → D
  key : D → Option K
  valid : D → Bool
  id_assign : ∀ i now d, id (assign i now d) = i
  id_set : ∀ u d, id (set u d) = id d

@[ext] structure Collection {D U K : Type} (S : Schema D U K) where
  docs : List D
  nextId : Nat
  nodup : (docs.map S.id).Nodup
  below : ∀ d ∈ docs, S.id d < nextId

/-- The first of the least elements of a list. -/
def least {D : Type} (sort : D → Nat) : List D → Option D
  | [] => none
  | d :: ds =>
      match least sort ds with
      | none => some d
      | some e => if sort d ≤ sort e then some d else some e

/-- The document a single-document query picks. -/
def pick {D : Type} (filter : D → Bool) (sort : Option (D → Nat)) (ds : List D) :
    Option D :=
  match sort with
  | none => ds.find? filter
  | some f => least f (ds.filter filter)

theorem least_mem {D : Type} {sort : D → Nat} {ds : List D} {d : D}
    (h : least sort ds = some d) : d ∈ ds := by
  induction ds with
  | nil => cases h
  | cons e es ih =>
      simp only [least] at h
      cases hl : least sort es with
      | none =>
          rw [hl] at h
          cases h
          exact List.mem_cons_self
      | some f =>
          rw [hl] at h
          simp only at h
          split at h <;> cases h
          · exact List.mem_cons_self
          · exact List.mem_cons_of_mem _ (ih hl)

theorem least_eq_none {D : Type} {sort : D → Nat} {ds : List D}
    (h : least sort ds = none) : ds = [] := by
  cases ds with
  | nil => rfl
  | cons e es =>
      simp only [least] at h
      cases hl : least sort es with
      | none => rw [hl] at h; cases h
      | some f =>
          rw [hl] at h
          simp only at h
          split at h <;> cases h

theorem pick_some {D : Type} {filter : D → Bool} {sort : Option (D → Nat)}
    {ds : List D} {d : D} (h : pick filter sort ds = some d) :
    d ∈ ds ∧ filter d = true := by
  cases sort with
  | none => exact ⟨List.mem_of_find?_eq_some h, List.find?_some h⟩
  | some f => exact List.mem_filter.mp (least_mem h)

theorem pick_none {D : Type} {filter : D → Bool} {sort : Option (D → Nat)}
    {ds : List D} (h : pick filter sort ds = none) {d : D} (hd : d ∈ ds) :
    filter d = false := by
  cases sort with
  | none => simpa using List.find?_eq_none.mp h d hd
  | some f =>
      have he := least_eq_none h
      rw [List.filter_eq_nil_iff] at he
      simpa using he d hd

namespace Collection
variable {D U K : Type} {S : Schema D U K}

def empty : Collection S := ⟨[], 0, List.nodup_nil, by simp⟩

/-- The document with identifier `i`. -/
def get (c : Collection S) (i : Nat) : Option D := c.docs.find? fun d => S.id d == i

/-- `$set` on the document with identifier `i`. -/
def modify (c : Collection S) (i : Nat) (u : U) : Collection S where
  docs := c.docs.map fun d => if S.id d = i then S.set u d else d
  nextId := c.nextId
  nodup := by
    have : (fun d => S.id (if S.id d = i then S.set u d else d)) = S.id := by
      funext d
      split <;> simp [S.id_set]
    simpa only [List.map_map, Function.comp_def, this] using c.nodup
  below := by
    intro d hd
    obtain ⟨e, he, rfl⟩ := List.mem_map.mp hd
    have := c.below e he
    split <;> simpa [S.id_set] using this

/-- `$set` on all the documents that the filter accepts. -/
def modifyAll (c : Collection S) (filter : D → Bool) (u : U) : Collection S where
  docs := c.docs.map fun d => if filter d then S.set u d else d
  nextId := c.nextId
  nodup := by
    have : (fun d => S.id (if filter d then S.set u d else d)) = S.id := by
      funext d
      split <;> simp [S.id_set]
    simpa only [List.map_map, Function.comp_def, this] using c.nodup
  below := by
    intro d hd
    obtain ⟨e, he, rfl⟩ := List.mem_map.mp hd
    have := c.below e he
    split <;> simpa [S.id_set] using this

def insert (c : Collection S) (now : Nat) (d : D) : Collection S where
  docs := c.docs ++ [S.assign c.nextId now d]
  nextId := c.nextId + 1
  nodup := by
    simp only [List.map_append, List.map_cons, List.map_nil, S.id_assign]
    rw [List.nodup_append]
    refine ⟨c.nodup, List.nodup_singleton _, ?_⟩
    intro j hj k hk
    obtain ⟨e, he, rfl⟩ := List.mem_map.mp hj
    rw [List.mem_singleton.mp hk]
    exact Nat.ne_of_lt (c.below e he)
  below := by
    intro e he
    rcases List.mem_append.mp he with he | he
    · exact Nat.lt_succ_of_lt (c.below e he)
    · rw [List.mem_singleton.mp he, S.id_assign]
      exact Nat.lt_succ_self _

/-- Another document already has the unique key of `d`. -/
def clashes [DecidableEq K] (c : Collection S) (d : D) : Bool :=
  (S.key d).isSome && c.docs.any fun e => S.id e != S.id d && S.key e == S.key d

theorem get_mem {c : Collection S} {i : Nat} {d : D} (h : c.get i = some d) :
    d ∈ c.docs := List.mem_of_find?_eq_some h

theorem get_id {c : Collection S} {i : Nat} {d : D} (h : c.get i = some d) :
    S.id d = i := by
  simpa using List.find?_some h

theorem get_of_mem {c : Collection S} {d : D} (h : d ∈ c.docs) :
    c.get (S.id d) = some d := by
  cases hf : c.get (S.id d) with
  | none => simpa using List.find?_eq_none.mp hf d h
  | some e => rw [List.inj_on_of_nodup_map c.nodup (get_mem hf) h (get_id hf)]

theorem get_of_id {c : Collection S} {i : Nat} {d : D} (h : d ∈ c.docs) (hi : S.id d = i) :
    c.get i = some d := hi ▸ get_of_mem h

theorem get_lt {c : Collection S} {i : Nat} {d : D} (h : c.get i = some d) :
    i < c.nextId := get_id h ▸ c.below d (get_mem h)

theorem mem_modify {c : Collection S} {i : Nat} {u : U} {d : D} :
    d ∈ (c.modify i u).docs ↔
      (∃ e, c.get i = some e ∧ d = S.set u e) ∨ (d ∈ c.docs ∧ S.id d ≠ i) := by
  simp only [modify, List.mem_map]
  constructor
  · rintro ⟨e, he, rfl⟩
    by_cases hi : S.id e = i
    · exact Or.inl ⟨e, get_of_id he hi, by simp [hi]⟩
    · exact Or.inr (by simpa [hi] using he)
  · rintro (⟨e, he, rfl⟩ | ⟨hd, hi⟩)
    · exact ⟨e, get_mem he, by simp [get_id he]⟩
    · exact ⟨d, hd, by simp [hi]⟩

/-- Documents that are rewritten keep their identifiers. -/
theorem id_ite (p : Prop) [Decidable p] (u : U) (d : D) :
    S.id (if p then S.set u d else d) = S.id d := by
  split
  · exact S.id_set u d
  · rfl

theorem get_modify (c : Collection S) (i j : Nat) (u : U) :
    (c.modify i u).get j = if j = i then (c.get i).map (S.set u) else c.get j := by
  have hmap : (c.modify i u).get j =
      (c.get j).map fun d => if S.id d = i then S.set u d else d := by
    simp only [get, modify, List.find?_map, Function.comp_def, id_ite]
  rw [hmap]
  by_cases hj : j = i
  · subst hj
    rw [if_pos rfl]
    cases h : c.get j with
    | none => rfl
    | some d => simp [get_id h]
  · rw [if_neg hj]
    cases h : c.get j with
    | none => rfl
    | some d => simp [get_id h, hj]

@[simp] theorem get_modify_self (c : Collection S) (i : Nat) (u : U) :
    (c.modify i u).get i = (c.get i).map (S.set u) := by
  rw [get_modify, if_pos rfl]

theorem modify_of_none {c : Collection S} {i : Nat} (h : c.get i = none) (u : U) :
    c.modify i u = c := by
  apply Collection.ext
  · have hne : ∀ d ∈ c.docs, (if S.id d = i then S.set u d else d) = d := by
      intro d hd
      have : ¬ S.id d = i := by simpa using List.find?_eq_none.mp h d hd
      rw [if_neg this]
    exact (List.map_congr_left hne).trans (List.map_id' _)
  · rfl

theorem get_modify_other (c : Collection S) {i j : Nat} (u : U) (h : j ≠ i) :
    (c.modify i u).get j = c.get j := by
  rw [get_modify, if_neg h]

theorem get_insert (c : Collection S) (now : Nat) (d : D) (j : Nat) :
    (c.insert now d).get j =
      if j = c.nextId then some (S.assign c.nextId now d) else c.get j := by
  by_cases hj : j = c.nextId
  · subst hj
    rw [if_pos rfl]
    exact get_of_id (by simp [insert]) (S.id_assign _ _ _)
  · rw [if_neg hj]
    cases h : c.get j with
    | none =>
        cases h' : (c.insert now d).get j with
        | none => rfl
        | some e =>
            rcases List.mem_append.mp (get_mem h') with he | he
            · rw [get_of_id he (get_id h')] at h; cases h
            · rw [List.mem_singleton.mp he] at h'
              exact absurd ((get_id h').symm.trans (S.id_assign _ _ _)) hj
    | some e =>
        exact get_of_id (List.mem_append.mpr (Or.inl (get_mem h))) (get_id h)

theorem get_modifyAll (c : Collection S) (filter : D → Bool) (u : U) (i : Nat) :
    (c.modifyAll filter u).get i = (c.get i).map fun d => if filter d then S.set u d else d := by
  simp only [get, modifyAll, List.find?_map, Function.comp_def, id_ite]

theorem get_nextId (c : Collection S) : c.get c.nextId = none := by
  cases h : c.get c.nextId with
  | none => rfl
  | some d => exact absurd (get_lt h) (Nat.lt_irrefl _)

/-- Totals change by the one document on which the summands differ. -/
theorem sum_change (c : Collection S) {φ ψ : D → Int} {i : Nat} {d : D} (h : c.get i = some d)
    (hne : ∀ e ∈ c.docs, S.id e ≠ i → ψ e = φ e) :
    (c.docs.map ψ).sum = (c.docs.map φ).sum - φ d + ψ d := by
  have key : ∀ l : List D, (l.map S.id).Nodup → d ∈ l → (∀ e ∈ l, S.id e ≠ i → ψ e = φ e) →
      (l.map ψ).sum = (l.map φ).sum - φ d + ψ d := by
    intro l hnd hd hl
    induction l with
    | nil => cases hd
    | cons e es ih =>
        rw [List.map_cons, List.nodup_cons] at hnd
        simp only [List.map_cons, List.sum_cons]
        by_cases he : S.id e = i
        · have hed : e = d := by
            cases List.mem_cons.mp hd with
            | inl h => exact h.symm
            | inr hmem =>
                have hid := List.mem_map_of_mem (f := S.id) hmem
                rw [get_id h, ← he] at hid
                exact absurd hid hnd.1
          have hrest : es.map ψ = es.map φ := by
            apply List.map_congr_left
            intro x hx
            refine hl x (List.mem_cons_of_mem e hx) ?_
            intro hxi
            exact hnd.1 (by rw [he, ← hxi]; exact List.mem_map_of_mem hx)
          rw [hrest, hed]
          ring
        · have hmem : d ∈ es := by
            cases List.mem_cons.mp hd with
            | inl h' => exact absurd (h' ▸ get_id h) he
            | inr hmem => exact hmem
          rw [hl e List.mem_cons_self he,
            ih hnd.2 hmem fun x hx => hl x (List.mem_cons_of_mem e hx)]
          ring
  exact key c.docs c.nodup (get_mem h) hne

/-- Totals over a collection change by the one document that was updated. -/
theorem sum_modify (c : Collection S) (φ : D → Int) {i : Nat} (u : U) {d : D}
    (h : c.get i = some d) :
    ((c.modify i u).docs.map φ).sum = (c.docs.map φ).sum - φ d + φ (S.set u d) := by
  have hmap : (c.modify i u).docs.map φ =
      c.docs.map fun e => φ (if S.id e = i then S.set u e else e) := by
    rw [modify, List.map_map]
    rfl
  have hd : φ (if S.id d = i then S.set u d else d) = φ (S.set u d) := by
    rw [if_pos (get_id h)]
  rw [hmap, c.sum_change h (φ := φ), hd]
  intro e _ he
  rw [if_neg he]

theorem sum_insert (c : Collection S) (φ : D → Int) (now : Nat) (d : D) :
    ((c.insert now d).docs.map φ).sum =
      (c.docs.map φ).sum + φ (S.assign c.nextId now d) := by
  simp [insert]

theorem sum_filter (p : D → Bool) (φ : D → Int) (ds : List D) :
    ((ds.filter p).map φ).sum = (ds.map fun d => if p d = true then φ d else 0).sum := by
  induction ds with
  | nil => rfl
  | cons d ds ih =>
      rw [List.filter_cons]
      split
      · rename_i hd
        simp only [List.map_cons, List.sum_cons, if_pos hd, ih]
      · rename_i hd
        simp only [List.map_cons, List.sum_cons, if_neg hd, ih, Int.zero_add]

theorem pick_byId (c : Collection S) (i : Nat) (cond : D → Bool) :
    pick (fun d => S.id d == i && cond d) none c.docs =
      (c.get i).filter cond := by
  cases h : pick (fun d => S.id d == i && cond d) none c.docs with
  | some d =>
      obtain ⟨hd, hf⟩ := pick_some h
      simp only [Bool.and_eq_true, beq_iff_eq] at hf
      rw [get_of_id hd hf.1]
      simp [Option.filter, hf.2]
  | none =>
      cases hg : c.get i with
      | none => rfl
      | some d =>
          have := pick_none h (get_mem hg)
          simp only [get_id hg, beq_self_eq_true, Bool.true_and] at this
          simp [Option.filter, this]

end Collection
end Store

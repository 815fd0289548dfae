import Mathlib.Data.List.Basic

/-!
Greedy regular expressions over any alphabet. A backtracking matcher tries the ways to
go on in order, the longest first; it tries exactly the words of the expression.
-/

inductive Regex (α : Type) where
  | cls (p : α → Bool)
  | many (p : α → Bool)
  | opt (a : Regex α)
  | seq (a b : Regex α)

namespace Regex
variable {α : Type} {s t w : List α} {p : α → Bool}

/-- What the nonempty runs of the class leave of the text. -/
def runs (p : α → Bool) : List α → List (List α)
  | [] => []
  | c :: cs => if p c then runs p cs ++ [cs] else []

/-- What the matches at the start of the text leave of it, in the order they are tried. -/
def rests : Regex α → List α → List (List α)
  | cls p, s => match s with
    | [] => []
    | c :: cs => if p c then [cs] else []
  | many p, s => runs p s
  | opt a, s => a.rests s ++ [s]
  | seq a b, s => (a.rests s).flatMap b.rests

/-- The words of the expression. -/
def Matches : Regex α → List α → Prop
  | cls p, w => ∃ c, p c = true ∧ w = [c]
  | many p, w => w ≠ [] ∧ ∀ c ∈ w, p c = true
  | opt a, w => a.Matches w ∨ w = []
  | seq a b, w => ∃ u v, a.Matches u ∧ b.Matches v ∧ w = u ++ v

/-- The whole text is a word: `/^(?:r)$/.test(s)`. -/
def test (r : Regex α) (s : List α) : Bool := (r.rests s).any List.isEmpty

/-- The word itself, if it is not empty. -/
def text [BEq α] (c : α) : List α → Regex α
  | [] => cls fun a => a == c
  | d :: ds => seq (cls fun a => a == c) (text d ds)

/-- Between one and `n + 1` of the class: `p{1,n+1}`. -/
def upTo (p : α → Bool) : Nat → Regex α
  | 0 => cls p
  | n + 1 => seq (cls p) (opt (upTo p n))

/-- Some stretch of the text is a word. -/
def Within (r : Regex α) (s : List α) : Prop := ∃ u w v, r.Matches w ∧ s = u ++ (w ++ v)

/-- The match of `(a)b` that is found at the start of the text: what the group leaves of the
text, and what the whole match leaves. -/
def first (a b : Regex α) (s : List α) : Option (List α × List α) :=
  ((a.rests s).flatMap fun u => (b.rests u).map fun t => (u, t)).head?

/-- The scan goes on behind a match, with `skip` to pass over. -/
def replaceFrom (a b : Regex α) (new : List α) : Nat → List α → List α
  | _, [] => []
  | skip + 1, _ :: cs => replaceFrom a b new skip cs
  | 0, c :: cs => match first a b (c :: cs) with
    | none => c :: replaceFrom a b new 0 cs
    | some (u, t) => (c :: cs).take (cs.length + 1 - u.length) ++
        (new ++ replaceFrom a b new (cs.length - t.length) cs)

/-- `s.replace(/(a)b/g, "$1" + new)`, for a `b` that is never empty. -/
def replaceAfter (a b : Regex α) (new s : List α) : List α := replaceFrom a b new 0 s

theorem mem_runs : t ∈ runs p s ↔ ∃ w, (many p).Matches w ∧ s = w ++ t := by
  induction s with
  | nil =>
      refine iff_of_false List.not_mem_nil ?_
      rintro ⟨w, hw, h⟩
      exact hw.1 (List.append_eq_nil_iff.mp h.symm).1
  | cons c cs ih =>
      rw [runs]
      split
      · rename_i hc
        rw [List.mem_append, List.mem_singleton, ih]
        constructor
        · rintro (⟨w, ⟨_, hw⟩, rfl⟩ | rfl)
          · exact ⟨c :: w, ⟨List.cons_ne_nil c w, List.forall_mem_cons.mpr ⟨hc, hw⟩⟩, rfl⟩
          · exact ⟨[c], ⟨List.cons_ne_nil c [], by simpa using hc⟩, rfl⟩
        · rintro ⟨w, ⟨hne, hw⟩, h⟩
          cases w with
          | nil => exact absurd rfl hne
          | cons d w =>
              obtain ⟨rfl, rfl⟩ := List.cons.inj h
              by_cases hempty : w = []
              · subst hempty
                exact Or.inr rfl
              · exact Or.inl ⟨w, ⟨hempty, (List.forall_mem_cons.mp hw).2⟩, rfl⟩
      · rename_i hc
        refine iff_of_false List.not_mem_nil ?_
        rintro ⟨w, ⟨hne, hw⟩, h⟩
        cases w with
        | nil => exact hne rfl
        | cons d w =>
            obtain ⟨rfl, _⟩ := List.cons.inj h
            exact hc (hw c List.mem_cons_self)

/-- The matcher tries the words of the expression. -/
theorem mem_rests {r : Regex α} : t ∈ r.rests s ↔ ∃ w, r.Matches w ∧ s = w ++ t := by
  induction r generalizing s t with
  | cls p =>
      cases s with
      | nil =>
          refine iff_of_false List.not_mem_nil ?_
          rintro ⟨_, ⟨_, _, rfl⟩, h⟩
          cases h
      | cons c cs =>
          rw [rests]
          split
          · rename_i hc
            rw [List.mem_singleton]
            constructor
            · rintro rfl
              exact ⟨[c], ⟨c, hc, rfl⟩, rfl⟩
            · rintro ⟨_, ⟨_, _, rfl⟩, h⟩
              exact (List.cons.inj h).2.symm
          · rename_i hc
            refine iff_of_false List.not_mem_nil ?_
            rintro ⟨_, ⟨d, hd, rfl⟩, h⟩
            obtain ⟨rfl, _⟩ := List.cons.inj h
            exact hc hd
  | many p => exact mem_runs
  | opt a ih =>
      rw [rests, List.mem_append, List.mem_singleton, ih]
      constructor
      · rintro (⟨w, hw, h⟩ | rfl)
        · exact ⟨w, Or.inl hw, h⟩
        · exact ⟨[], Or.inr rfl, rfl⟩
      · rintro ⟨w, hw | rfl, h⟩
        · exact Or.inl ⟨w, hw, h⟩
        · exact Or.inr h.symm
  | seq a b iha ihb =>
      rw [rests, List.mem_flatMap]
      constructor
      · rintro ⟨m, hm, ht⟩
        obtain ⟨u, hu, rfl⟩ := iha.mp hm
        obtain ⟨v, hv, rfl⟩ := ihb.mp ht
        exact ⟨u ++ v, ⟨u, v, hu, hv, rfl⟩, (List.append_assoc u v t).symm⟩
      · rintro ⟨_, ⟨u, v, hu, hv, rfl⟩, h⟩
        rw [List.append_assoc] at h
        exact ⟨v ++ t, iha.mpr ⟨u, hu, h⟩, ihb.mpr ⟨v, hv, rfl⟩⟩

theorem test_iff {r : Regex α} : r.test s = true ↔ r.Matches s := by
  rw [test, List.any_eq_true]
  constructor
  · rintro ⟨t, ht, hempty⟩
    rw [mem_rests] at ht
    obtain ⟨w, hw, rfl⟩ := ht
    rw [List.isEmpty_iff.mp hempty, List.append_nil]
    exact hw
  · intro h
    refine ⟨[], ?_, rfl⟩
    rw [mem_rests]
    exact ⟨s, h, (List.append_nil s).symm⟩

theorem matches_text [BEq α] [LawfulBEq α] {c : α} {cs : List α} :
    (text c cs).Matches w ↔ w = c :: cs := by
  induction cs generalizing c w with
  | nil =>
      constructor
      · rintro ⟨a, ha, rfl⟩
        rw [eq_of_beq ha]
      · rintro rfl
        exact ⟨c, beq_self_eq_true c, rfl⟩
  | cons d ds ih =>
      constructor
      · rintro ⟨_, v, ⟨a, ha, rfl⟩, hv, rfl⟩
        rw [eq_of_beq ha, ih.mp hv]
        rfl
      · rintro rfl
        exact ⟨[c], d :: ds, ⟨c, beq_self_eq_true c, rfl⟩, ih.mpr rfl, rfl⟩

theorem matches_upTo {n : Nat} :
    (upTo p n).Matches w ↔ w ≠ [] ∧ w.length ≤ n + 1 ∧ ∀ c ∈ w, p c = true := by
  induction n generalizing w with
  | zero =>
      constructor
      · rintro ⟨c, hc, rfl⟩
        exact ⟨List.cons_ne_nil c [], Nat.le_refl 1, by simpa using hc⟩
      · rintro ⟨hne, hlen, hw⟩
        obtain ⟨c, rfl⟩ := List.length_eq_one_iff.mp
          (Nat.le_antisymm hlen (List.length_pos_iff.mpr hne))
        exact ⟨c, hw c List.mem_cons_self, rfl⟩
  | succ n ih =>
      constructor
      · rintro ⟨_, v, ⟨c, hc, rfl⟩, hv, rfl⟩
        refine ⟨List.cons_ne_nil c v, ?_⟩
        obtain hv | rfl := hv
        · obtain ⟨_, hlen, hall⟩ := ih.mp hv
          exact ⟨Nat.succ_le_succ hlen, List.forall_mem_cons.mpr ⟨hc, hall⟩⟩
        · exact ⟨Nat.succ_le_succ (Nat.zero_le _), by simpa using hc⟩
      · rintro ⟨hne, hlen, hw⟩
        cases w with
        | nil => exact absurd rfl hne
        | cons c v =>
            obtain ⟨hc, hv⟩ := List.forall_mem_cons.mp hw
            refine ⟨[c], v, ⟨c, hc, rfl⟩, ?_, rfl⟩
            by_cases hempty : v = []
            · exact Or.inr hempty
            · exact Or.inl (ih.mpr ⟨hempty, Nat.le_of_succ_le_succ hlen, hv⟩)

section Replace
variable {a b : Regex α} {new : List α}

theorem first_none (h : first a b s = none) {k : List α} (hw : a.Matches w) (hk : b.Matches k) :
    s ≠ w ++ (k ++ t) := by
  intro hs
  have hword : k ++ t ∈ a.rests s := by
    rw [mem_rests]
    exact ⟨w, hw, hs⟩
  have hafter : t ∈ b.rests (k ++ t) := by
    rw [mem_rests]
    exact ⟨k, hk, rfl⟩
  have hmem : (k ++ t, t) ∈ (a.rests s).flatMap fun u => (b.rests u).map fun t => (u, t) :=
    List.mem_flatMap.mpr ⟨k ++ t, hword, List.mem_map.mpr ⟨t, hafter, rfl⟩⟩
  rw [first, List.head?_eq_none_iff] at h
  rw [h] at hmem
  cases hmem

theorem first_some {u : List α} (h : first a b s = some (u, t)) :
    ∃ w k, a.Matches w ∧ b.Matches k ∧ s = w ++ u ∧ u = k ++ t := by
  obtain ⟨m, hm, ht⟩ := List.mem_flatMap.mp (List.mem_of_head? h)
  obtain ⟨_, ht, hpair⟩ := List.mem_map.mp ht
  cases hpair
  rw [mem_rests] at hm ht
  obtain ⟨w, hw, hs⟩ := hm
  obtain ⟨k, hk, hu⟩ := ht
  exact ⟨w, k, hw, hk, hs, hu⟩

theorem replaceFrom_skip (skip : Nat) :
    replaceFrom a b new skip s = replaceAfter a b new (s.drop skip) := by
  induction s generalizing skip with
  | nil =>
      rw [List.drop_nil]
      cases skip <;> rfl
  | cons c cs ih =>
      cases skip with
      | zero => rfl
      | succ skip =>
          rw [replaceFrom, List.drop_succ_cons]
          exact ih skip

/-- A unit is kept, or a match at the start of the text is replaced. -/
theorem replaceAfter_cons (hb : ¬ b.Matches []) (c : α) (cs : List α) :
    ((∀ w k t, a.Matches w → b.Matches k → c :: cs ≠ w ++ (k ++ t)) ∧
      replaceAfter a b new (c :: cs) = c :: replaceAfter a b new cs) ∨
    ∃ w k t, a.Matches w ∧ b.Matches k ∧ c :: cs = w ++ (k ++ t) ∧
      replaceAfter a b new (c :: cs) = w ++ (new ++ replaceAfter a b new t) := by
  cases h : first a b (c :: cs) with
  | none =>
      refine Or.inl ⟨fun w k t hw hk => first_none h hw hk, ?_⟩
      rw [replaceAfter, replaceFrom, h]
      rfl
  | some r =>
      obtain ⟨w, k, hw, hk, hs, hu⟩ := first_some h
      refine Or.inr ⟨w, k, r.2, hw, hk, hu ▸ hs, ?_⟩
      have hlen : cs.length + 1 = w.length + r.1.length := by
        rw [← List.length_append, ← hs, List.length_cons]
      have htake : (c :: cs).take (cs.length + 1 - r.1.length) = w := by
        rw [hlen, Nat.add_sub_cancel, hs, List.take_left']
        rfl
      have hdrop : cs.drop (cs.length - r.2.length) = r.2 := by
        cases hm : w ++ k with
        | nil => exact absurd hk ((List.append_eq_nil_iff.mp hm).2 ▸ hb)
        | cons d ds =>
            have hcs : cs = ds ++ r.2 := by
              rw [hu, ← List.append_assoc, hm] at hs
              exact (List.cons.inj hs).2
            rw [hcs, List.length_append, Nat.add_sub_cancel, List.drop_left']
            rfl
      rw [replaceAfter, replaceFrom, h]
      simp only
      rw [htake, replaceFrom_skip, hdrop]

/-- A property of texts and what they are replaced by holds if every step of the scan
keeps it. -/
theorem replaceAfter_induction (hb : ¬ b.Matches []) {P : List α → List α → Prop} (nil : P [] [])
    (keep : ∀ c cs, (∀ w k t, a.Matches w → b.Matches k → c :: cs ≠ w ++ (k ++ t)) →
      replaceAfter a b new (c :: cs) = c :: replaceAfter a b new cs →
      P cs (replaceAfter a b new cs) → P (c :: cs) (c :: replaceAfter a b new cs))
    (replace : ∀ w k t, a.Matches w → b.Matches k → P t (replaceAfter a b new t) →
      P (w ++ (k ++ t)) (w ++ (new ++ replaceAfter a b new t)))
    (s : List α) : P s (replaceAfter a b new s) := by
  induction hn : s.length using Nat.strongRecOn generalizing s with
  | ind n ih =>
      subst hn
      cases s with
      | nil => exact nil
      | cons c cs =>
          obtain ⟨hnone, heq⟩ | ⟨w, k, t, hw, hk, hs, heq⟩ := replaceAfter_cons hb c cs
          · rw [heq]
            exact keep c cs hnone heq (ih cs.length (Nat.lt_succ_self _) cs rfl)
          · have hlen : t.length < (c :: cs).length := by
              have hpos : 0 < k.length := List.length_pos_iff.mpr fun hnil => hb (hnil ▸ hk)
              rw [hs, List.length_append, List.length_append]
              omega
            rw [heq, hs]
            exact replace w k t hw hk (ih t.length hlen t rfl)

/-- A text without a match stays as it is. -/
theorem replaceAfter_eq_self (hb : ¬ b.Matches []) (h : ¬ (seq a b).Within s) :
    replaceAfter a b new s = s := by
  revert h
  refine replaceAfter_induction (P := fun s r => ¬ (seq a b).Within s → r = s) hb ?_ ?_ ?_ s
  · exact fun _ => rfl
  · intro c cs _ _ ih h
    refine congrArg (List.cons c) (ih ?_)
    rintro ⟨u, w, v, hw, hs⟩
    exact h ⟨c :: u, w, v, hw, congrArg (List.cons c) hs⟩
  · intro w k t hw hk _ h
    exact absurd ⟨[], w ++ k, t, ⟨w, k, hw, hk, rfl⟩, (List.append_assoc w k t).symm⟩ h

end Replace

end Regex

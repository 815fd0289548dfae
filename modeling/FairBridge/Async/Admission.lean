import FairBridge.Async.System
import Mathlib.Data.Finset.Card
import Mathlib.Data.Fintype.Card

/-!
Programs that ask how many entries there are before they make one. Nothing joins the
question to the entry, so that every program under way may pass on the same count: the
entries are bounded by the limit and the programs at once, and not by the limit alone.
-/

namespace Async
universe u
variable {Op : Type → Type u} {ε W ι τ E α β : Type}

/-- Which requests make an entry, and which answers let a program make one. -/
structure Admission (Op : Type → Type u) (ε : Type) where
  enters : {β : Type} → Op β → Prop
  admits : {β : Type} → Op β → Except ε β → Prop

namespace Admission
variable (A : Admission Op ε)

/-- A program that is `admitted` may make one entry; the answers of its requests may admit
it again. It ends with `Q` of its result and of whether it is still admitted. -/
def Asks (Q : Except ε α → Prop → Prop) : Prop → Program Op ε α → Prop
  | admitted, .pure a => Q (.ok a) admitted
  | admitted, .throw e => Q (.error e) admitted
  | admitted, .await op k => (A.enters op → admitted) ∧
      ∀ r, Asks Q (A.admits op r ∨ admitted ∧ ¬ A.enters op) (k r)

/-- The request neither makes an entry nor admits anyone. -/
def Neutral (op : Op β) : Prop := ¬ A.enters op ∧ ∀ r, ¬ A.admits op r

variable {A} {Q Q' : Except ε α → Prop → Prop} {admitted : Prop}

theorem Asks.mono {p : Program Op ε α} (h : A.Asks Q admitted p)
    (hQ : ∀ r b, Q r b → Q' r b) : A.Asks Q' admitted p := by
  induction p generalizing admitted with
  | pure a => exact hQ _ _ h
  | throw e => exact hQ _ _ h
  | await op k ih => exact ⟨h.1, fun r => ih r (h.2 r)⟩

theorem Asks.bind {R : Except ε β → Prop → Prop} {p : Program Op ε α} {f : α → Program Op ε β}
    (h : A.Asks Q admitted p) (hok : ∀ a b, Q (.ok a) b → A.Asks R b (f a))
    (herr : ∀ e b, Q (.error e) b → R (.error e) b) : A.Asks R admitted (p.bind f) := by
  induction p generalizing admitted with
  | pure a => exact hok a _ h
  | throw e => exact herr e _ h
  | await op k ih => exact ⟨h.1, fun r => ih r (h.2 r)⟩

theorem Asks.tryCatch {p : Program Op ε α} {c : ε → Program Op ε α}
    (h : A.Asks Q admitted p) (hok : ∀ a b, Q (.ok a) b → Q' (.ok a) b)
    (herr : ∀ e b, Q (.error e) b → A.Asks Q' b (c e)) : A.Asks Q' admitted (p.tryCatch c) := by
  induction p generalizing admitted with
  | pure a => exact hok a _ h
  | throw e => exact herr e _ h
  | await op k ih => exact ⟨h.1, fun r => ih r (h.2 r)⟩

/-- A program of neutral requests ends as it began. -/
theorem Asks.neutral {P : Prop} {p : Program Op ε α} (h : p.Only fun op => A.Neutral op) :
    A.Asks (fun _ b => b = P) P p := by
  induction p with
  | pure a => rfl
  | throw e => rfl
  | await op k ih =>
      refine ⟨fun henters => absurd henters h.1.1, fun r => ?_⟩
      have hsame : (A.admits op r ∨ P ∧ ¬ A.enters op) = P :=
        propext ⟨fun hr => hr.elim (fun hr => absurd hr (h.1.2 r)) And.left,
          fun hr => Or.inr ⟨hr, h.1.1⟩⟩
      rw [hsame]
      exact ih r (h.2 r)

theorem Asks.of_neutral {p : Program Op ε α} (h : p.Only fun op => A.Neutral op)
    (hQ : ∀ r, Q r admitted) : A.Asks Q admitted p := by
  refine (Asks.neutral (P := admitted) h).mono fun r b hb => ?_
  rw [hb]
  exact hQ r

/-- What comes before a program and is neutral may be passed over. -/
theorem Asks.after {R : Except ε β → Prop → Prop} {p : Program Op ε α} {f : α → Program Op ε β}
    (h : p.Only fun op => A.Neutral op) (herr : ∀ e, R (.error e) admitted)
    (hf : ∀ a, A.Asks R admitted (f a)) : A.Asks R admitted (p.bind f) := by
  refine (Asks.neutral (P := admitted) h).bind (fun a b hb => ?_) fun e b hb => ?_
  · rw [hb]
    exact hf a
  · rw [hb]
    exact herr e

end Admission

/-- A system whose programs make an entry only when they have been admitted since the last
one, and whose count of the entries grows by nothing else. -/
structure Gate (sys : System Op ε W ι τ E) extends Admission Op ε where
  count : W → Nat
  limit : Nat
  env : ∀ {e v w}, sys.env e v = some w → count w ≤ count v
  tasks : ∀ {w i t}, sys.ready w i t = true →
    toAdmission.Asks (fun _ _ => True) False (sys.program t)
  step : ∀ {β : Type} {i : ι} {op : Op β} {out : Outcome ε} {r : Except ε β} {v w : W},
    sys.answer i op out v = some (r, w) → count w ≤ count v + 1 ∧
      (¬ enters op → count w ≤ count v) ∧ (admits op r → count w < limit)

namespace Gate
open Classical
variable {sys : System Op ε W ι τ E} (G : Gate sys) {p q : Pool Op ε W ι} [Fintype ι]

/-- How many programs have been admitted. -/
noncomputable def admitted (flags : ι → Prop) : Nat := (Finset.univ.filter flags).card

theorem admitted_le (flags : ι → Prop) : admitted flags ≤ Fintype.card ι :=
  Finset.card_filter_le _ _

/-- The count, with the entries that may still be made, is within the bound. -/
structure Bounded (bound : Nat) (p : Pool Op ε W ι) (flags : ι → Prop) : Prop where
  count : G.count p.world + admitted flags ≤ bound
  asks : ∀ i, G.toAdmission.Asks (fun _ _ => True) (flags i) (p.slot i)

theorem Bounded.init (w : W) : G.Bounded (max (G.count w) (G.limit + Fintype.card ι - 1))
    (.init w) fun _ => False where
  count := by
    have hnone : admitted (fun _ : ι => False) = 0 := by simp [admitted]
    rw [hnone]
    exact Nat.le_max_left _ _
  asks _ := trivial

variable [DecidableEq ι]

theorem admitted_update (flags : ι → Prop) (i : ι) (b : Prop) :
    admitted (Function.update flags i b) + (if flags i then 1 else 0) =
      admitted flags + if b then 1 else 0 := by
  have hsplit : ∀ g : ι → Prop, admitted g =
      ((Finset.univ.erase i).filter g).card + if g i then 1 else 0 := by
    intro g
    rw [admitted, ← Finset.insert_erase (Finset.mem_univ i), Finset.filter_insert]
    split
    · simp [Finset.filter_erase]
    · simp
  have hsame : (Finset.univ.erase i).filter (Function.update flags i b) =
      (Finset.univ.erase i).filter flags := by
    refine Finset.filter_congr fun j hj => ?_
    rw [Function.update_of_ne (Finset.ne_of_mem_erase hj)]
  rw [hsplit (Function.update flags i b), hsplit flags, hsame, Function.update_self]
  omega

omit [Fintype ι] in
theorem asks_update {flags : ι → Prop} {i : ι} {b : Prop} {prog : Program Op ε Unit} {w : W}
    (h : ∀ j, G.toAdmission.Asks (fun _ _ => True) (flags j) (p.slot j))
    (hprog : G.toAdmission.Asks (fun _ _ => True) b prog) (j : ι) :
    G.toAdmission.Asks (fun _ _ => True) (Function.update flags i b j)
      ((⟨w, Function.update p.slot i prog⟩ : Pool Op ε W ι).slot j) := by
  by_cases hj : j = i
  · subst j
    simpa only [Function.update_self] using hprog
  · simpa only [Function.update_of_ne hj] using h j

/-- One step of a program: it was admitted where the count was below the limit, or it made
an entry that it had been admitted to, or the count did not grow. -/
theorem Bounded.answered {bound : Nat} {flags : ι → Prop} {i : ι} {op : Op β}
    {k : Except ε β → Program Op ε Unit} {out : Outcome ε} {r : Except ε β} {w : W}
    (hbound : G.limit + Fintype.card ι - 1 ≤ bound) (h : G.Bounded bound p flags)
    (hslot : p.slot i = .await op k) (hans : sys.answer i op out p.world = some (r, w)) :
    ∃ flags, G.Bounded bound ⟨w, Function.update p.slot i (k r)⟩ flags := by
  have hasks := h.asks i
  rw [hslot] at hasks
  obtain ⟨hone, hsame, hadmits⟩ := G.step hans
  have hnow := hasks.2 r
  generalize hb : (G.admits op r ∨ flags i ∧ ¬ G.enters op) = b at hnow
  refine ⟨Function.update flags i b, ?_, G.asks_update h.asks hnow⟩
  change G.count w + _ ≤ bound
  have hold := h.count
  have hupdate := admitted_update flags i b
  by_cases hadmit : G.admits op r
  · have hle := admitted_le (Function.update flags i b)
    have hlimit := hadmits hadmit
    have hcard : 0 < Fintype.card ι := Fintype.card_pos_iff.mpr ⟨i⟩
    omega
  · by_cases henters : G.enters op
    · have hflag : flags i := hasks.1 henters
      have hspent : ¬ b := by
        rw [← hb]
        exact fun hr => hr.elim hadmit fun hr => hr.2 henters
      rw [if_pos hflag, if_neg hspent] at hupdate
      omega
    · have hkept : b ↔ flags i := by
        rw [← hb]
        exact ⟨fun hr => hr.elim (fun hr => absurd hr hadmit) And.left,
          fun hr => Or.inr ⟨hr, henters⟩⟩
      have hsame := hsame henters
      rw [if_congr hkept rfl rfl] at hupdate
      omega

theorem Bounded.next {bound : Nat} {flags : ι → Prop} {e : Event ε ι τ E}
    (hbound : G.limit + Fintype.card ι - 1 ≤ bound) (h : G.Bounded bound p flags)
    (hn : sys.next p e = some q) : ∃ flags, G.Bounded bound q flags := by
  cases e with
  | start i t =>
      simp only [System.next] at hn
      split at hn <;> cases hn
      rename_i hc
      rw [Bool.and_eq_true] at hc
      refine ⟨Function.update flags i False, ?_, G.asks_update h.asks (G.tasks hc.2)⟩
      have hupdate := admitted_update flags i False
      have hold := h.count
      rw [if_neg not_false] at hupdate
      change G.count p.world + _ ≤ bound
      omega
  | step i out =>
      simp only [System.next] at hn
      split at hn
      · rename_i op k hslot
        split at hn <;> try contradiction
        obtain ⟨r, hans, rfl⟩ := Option.map_eq_some_iff.mp hn
        exact Bounded.answered G hbound h hslot hans
      · cases hn
  | kill i =>
      simp only [System.next] at hn
      split at hn
      · split at hn <;> cases hn
        have hnone : G.toAdmission.Asks (fun _ _ => True) (flags i)
            (.pure () : Program Op ε Unit) := trivial
        have hasks := G.asks_update (i := i) (w := p.world) h.asks hnone
        rw [Function.update_eq_self] at hasks
        exact ⟨flags, h.count, hasks⟩
      · cases hn
  | env e =>
      obtain ⟨w, hw, rfl⟩ := Option.map_eq_some_iff.mp hn
      exact ⟨flags, (Nat.add_le_add_right (G.env hw) _).trans h.count, h.asks⟩

/-- In no run are there more entries than the limit and the programs at once allow, unless
there were before. -/
theorem count_exec {w : W} {es : List (Event ε ι τ E)} (hq : sys.exec (.init w) es = some q) :
    G.count q.world ≤ max (G.count w) (G.limit + Fintype.card ι - 1) := by
  have hbound : G.limit + Fintype.card ι - 1 ≤ max (G.count w) (G.limit + Fintype.card ι - 1) :=
    Nat.le_max_right _ _
  obtain ⟨flags, h⟩ := sys.exec_induction
    (P := fun p => ∃ flags, G.Bounded (max (G.count w) (G.limit + Fintype.card ι - 1)) p flags)
    (fun _ _ _ hp hn => hp.elim fun _ h => Bounded.next G hbound h hn) ⟨_, .init G w⟩ hq
  exact (Nat.le_add_right _ _).trans h.count

end Gate
end Async

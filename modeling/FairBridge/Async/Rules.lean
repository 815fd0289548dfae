import FairBridge.Async.System

/-!
Rely-guarantee rules for systems of asynchronous programs. A slot may rely on
what the others guarantee; what it knows at an await has to survive their steps
and the environment's. `rest` is what a slot leaves behind when its program
ends, also when the program is killed at an await. `permits` is what may be
assumed where a request is performed, beyond what the slot knows.
-/

namespace Async
universe u
variable {Op : Type → Type u} {ε W ι τ E : Type}

/-- `S` may carry more than the world itself, such as who holds a claim. -/
structure Rules (sys : System Op ε W ι τ E) (S : Type) where
  world : S → W
  inv : S → Prop
  rely : ι → S → S → Prop
  guar : ι → S → S → Prop
  rest : ι → S → Prop
  hist : S → S → Prop
  rely_refl : ∀ i s, rely i s s
  rely_trans : ∀ {i s t u}, rely i s t → rely i t u → rely i s u
  guar_refl : ∀ i s, guar i s s
  guar_rely : ∀ {i j s t}, i ≠ j → inv s → inv t → guar i s t → rely j s t
  rest_stable : ∀ {i s t}, inv s → inv t → rely i s t → rest i s → rest i t
  hist_refl : ∀ s, hist s s
  hist_trans : ∀ {s t u}, hist s t → hist t u → hist s u
  guar_hist : ∀ {i s t}, inv s → inv t → guar i s t → hist s t
  env_step : ∀ {e s w}, inv s → sys.env e (world s) = some w →
    ∃ t, world t = w ∧ inv t ∧ hist s t ∧ ∀ i, rely i s t
  permits : {β : Type} → ι → Op β → S → Prop := fun _ _ _ => True

namespace Rules
variable {sys : System Op ε W ι τ E} {S α β : Type} (R : Rules sys S)

/-- From `s` on, whatever the others do, every step of the program keeps the
invariant and its guarantee, and its end meets `Q` or `X`. -/
def Safe (i : ι) (Q : α → S → Prop) (X : ε → S → Prop) :
    Program Op ε α → S → Prop
  | .pure a, s => ∀ t, R.rely i s t → R.inv t → Q a t
  | .throw e, s => ∀ t, R.rely i s t → R.inv t → X e t
  | .await op k, s => ∀ t, R.rely i s t → R.inv t →
      (sys.mayKill i op (R.world t) = true → R.rest i t) ∧
      ∀ out r w, R.permits i op t → sys.may i op out (R.world t) = true →
        sys.answer i op out (R.world t) = some (r, w) →
        ∃ u, R.world u = w ∧ R.inv u ∧ R.guar i t u ∧ Safe i Q X (k r) u

/-- The assertion survives every step of the other slots and the environment. -/
def Stable (i : ι) (P : S → Prop) : Prop :=
  ∀ s t, R.inv s → R.inv t → R.rely i s t → P s → P t

def Triple (i : ι) (P : S → Prop) (p : Program Op ε α) (Q : α → S → Prop)
    (X : ε → S → Prop) : Prop :=
  ∀ s, R.inv s → P s → R.Safe i Q X p s

/-- One request served where `P` holds: whatever its outcome, the invariant and
the guarantee are kept and `M` holds of the answer. -/
def Performs (i : ι) (P : S → Prop) (op : Op β) (M : Except ε β → S → Prop) : Prop :=
  ∀ s out r w, R.inv s → P s → R.permits i op s → sys.may i op out (R.world s) = true →
    sys.answer i op out (R.world s) = some (r, w) →
    ∃ t, R.world t = w ∧ R.inv t ∧ R.guar i s t ∧ M r t

/-- The assertion implies what a run killed here has to leave behind. -/
def Settled (i : ι) (P : S → Prop) (op : Op β) : Prop :=
  ∀ s, R.inv s → P s → sys.mayKill i op (R.world s) = true → R.rest i s

/-- `M` of the value a request is answered by, `N` if it raises. -/
def Answered (M : β → S → Prop) (N : S → Prop) : Except ε β → S → Prop
  | .ok b => M b
  | .error _ => N

/-- `M` of the value that was found, `N` if there is none. -/
def Found (M : β → S → Prop) (N : S → Prop) : Option β → S → Prop
  | some b => M b
  | none => N

variable {R} {i : ι} {P P' : S → Prop} {Q Q' : α → S → Prop} {X X' : ε → S → Prop}

theorem Stable.rest : R.Stable i (R.rest i) := fun _ _ hs ht h => R.rest_stable hs ht h

theorem Settled.of_rest {op : Op β} (h : ∀ s, R.inv s → P s → R.rest i s) :
    R.Settled i P op :=
  fun s hi hs _ => h s hi hs

theorem Performs.post {op : Op β} {M M' : Except ε β → S → Prop}
    (h : R.Performs i P op M) (hM : ∀ r s, R.inv s → M r s → M' r s) :
    R.Performs i P op M' := by
  intro s out r w hi hs hperm hmay hans
  obtain ⟨t, hw, hit, hg, ht⟩ := h s out r w hi hs hperm hmay hans
  exact ⟨t, hw, hit, hg, hM r t hit ht⟩

theorem Safe.later {p : Program Op ε α} {s t : S} (h : R.Safe i Q X p s)
    (ht : R.rely i s t) : R.Safe i Q X p t := by
  cases p with
  | pure _ | throw _ => exact fun u hu => h u (R.rely_trans ht hu)
  | await op k => exact fun u hu => h u (R.rely_trans ht hu)

theorem Safe.weaken {p : Program Op ε α} {s : S} (h : R.Safe i Q X p s)
    (hQ : ∀ a t, R.inv t → Q a t → Q' a t) (hX : ∀ e t, R.inv t → X e t → X' e t) :
    R.Safe i Q' X' p s := by
  induction p generalizing s with
  | pure a => exact fun t ht hi => hQ a t hi (h t ht hi)
  | throw e => exact fun t ht hi => hX e t hi (h t ht hi)
  | await op k ih =>
      intro t ht hi
      obtain ⟨hkill, hstep⟩ := h t ht hi
      refine ⟨hkill, ?_⟩
      intro out r w hperm hmay hans
      obtain ⟨u, hu, hiu, hg, hs⟩ := hstep out r w hperm hmay hans
      exact ⟨u, hu, hiu, hg, ih r hs⟩

theorem Safe.bind {p : Program Op ε β} {f : β → Program Op ε α} {M : β → S → Prop}
    {s : S} (h : R.Safe i M X p s)
    (hf : ∀ b, R.Triple i (M b) (f b) Q X) (hi : R.inv s) :
    R.Safe i Q X (p.bind f) s := by
  induction p generalizing s with
  | pure b => exact hf b s hi (h s (R.rely_refl i s) hi)
  | throw e => exact h
  | await op k ih =>
      intro t ht hit
      obtain ⟨hkill, hstep⟩ := h t ht hit
      refine ⟨hkill, ?_⟩
      intro out r w hperm hmay hans
      obtain ⟨u, hu, hiu, hg, hs⟩ := hstep out r w hperm hmay hans
      exact ⟨u, hu, hiu, hg, ih r hs hiu⟩

theorem Safe.tryCatch {p : Program Op ε α} {h : ε → Program Op ε α} {M : ε → S → Prop}
    {s : S} (hp : R.Safe i Q M p s)
    (hh : ∀ e, R.Triple i (M e) (h e) Q X) (hi : R.inv s) :
    R.Safe i Q X (p.tryCatch h) s := by
  induction p generalizing s with
  | pure a => exact hp
  | throw e => exact hh e s hi (hp s (R.rely_refl i s) hi)
  | await op k ih =>
      intro t ht hit
      obtain ⟨hkill, hstep⟩ := hp t ht hit
      refine ⟨hkill, ?_⟩
      intro out r w hperm hmay hans
      obtain ⟨u, hu, hiu, hg, hs⟩ := hstep out r w hperm hmay hans
      exact ⟨u, hu, hiu, hg, ih r hs hiu⟩

/-- What both the others and the slot itself leave alone is still known at the
end. -/
theorem Safe.frame {p : Program Op ε α} {F : S → Prop} (hrely : R.Stable i F)
    (hguar : ∀ s t, R.inv s → R.inv t → R.guar i s t → F s → F t) {s : S}
    (h : R.Safe i Q X p s) (hi : R.inv s) (hF : F s) :
    R.Safe i (fun a t => Q a t ∧ F t) X p s := by
  induction p generalizing s with
  | pure a => exact fun t ht hit => ⟨h t ht hit, hrely s t hi hit ht hF⟩
  | throw e => exact h
  | await op k ih =>
      intro t ht hit
      have hFt : F t := hrely s t hi hit ht hF
      obtain ⟨hkill, hstep⟩ := h t ht hit
      refine ⟨hkill, ?_⟩
      intro out r w hperm hmay hans
      obtain ⟨u, hu, hiu, hg, hs⟩ := hstep out r w hperm hmay hans
      exact ⟨u, hu, hiu, hg, ih r hs hiu (hguar t u hit hiu hg hFt)⟩

theorem Triple.weaken {p : Program Op ε α} (h : R.Triple i P p Q X)
    (hP : ∀ s, R.inv s → P' s → P s)
    (hQ : ∀ a s, R.inv s → Q a s → Q' a s) (hX : ∀ e s, R.inv s → X e s → X' e s) :
    R.Triple i P' p Q' X' :=
  fun s hi hs => (h s hi (hP s hi hs)).weaken hQ hX

theorem Triple.pre {p : Program Op ε α} (h : R.Triple i P p Q X)
    (hP : ∀ s, R.inv s → P' s → P s) : R.Triple i P' p Q X :=
  fun s hi hs => h s hi (hP s hi hs)

/-- What the assertion says about values fixed beforehand may be used. -/
theorem Triple.fact {p : Program Op ε α} {F : Prop} (hF : ∀ s, R.inv s → P s → F)
    (h : F → R.Triple i P p Q X) : R.Triple i P p Q X :=
  fun s hi hs => h (hF s hi hs) s hi hs

theorem Triple.pure {a : α} (hP : R.Stable i P) (h : ∀ s, R.inv s → P s → Q a s) :
    R.Triple i P (.pure a) Q X :=
  fun s hi hs t ht hit => h t hit (hP s t hi hit ht hs)

theorem Triple.throw {e : ε} (hP : R.Stable i P) (h : ∀ s, R.inv s → P s → X e s) :
    R.Triple i P (.throw e) Q X :=
  fun s hi hs t ht hit => h t hit (hP s t hi hit ht hs)

theorem Triple.await {op : Op β} {k : Except ε β → Program Op ε α}
    {M : Except ε β → S → Prop} (hP : R.Stable i P) (hkill : R.Settled i P op)
    (hstep : R.Performs i P op M) (hk : ∀ r, R.Triple i (M r) (k r) Q X) :
    R.Triple i P (.await op k) Q X := by
  intro s hi hs t ht hit
  have hPt : P t := hP s t hi hit ht hs
  refine ⟨hkill t hit hPt, ?_⟩
  intro out r w hperm hmay hans
  obtain ⟨u, hu, hiu, hg, hM⟩ := hstep t out r w hit hPt hperm hmay hans
  exact ⟨u, hu, hiu, hg, hk r u hiu hM⟩

theorem Triple.request {op : Op α} {M : Except ε α → S → Prop}
    (hP : R.Stable i P) (hkill : R.Settled i P op) (hstep : R.Performs i P op M)
    (hok : ∀ a, R.Stable i (M (.ok a))) (herr : ∀ e, R.Stable i (M (.error e))) :
    R.Triple i P (Program.request op) (fun a => M (.ok a)) (fun e => M (.error e)) := by
  refine .await hP hkill hstep ?_
  intro r
  cases r with
  | ok a => exact .pure (hok a) fun _ _ h => h
  | error e => exact .throw (herr e) fun _ _ h => h

theorem Triple.call {op : Op α} {M : α → S → Prop} {N : S → Prop}
    (hP : R.Stable i P) (hkill : R.Settled i P op)
    (hstep : R.Performs i P op (Answered M N))
    (hM : ∀ a, R.Stable i (M a)) (hN : R.Stable i N) :
    R.Triple i P (Program.request op) M (fun _ => N) :=
  .request hP hkill hstep hM fun _ => hN

/-- A request made with nothing left undone: a run that ends at it is at rest. -/
theorem Triple.step {op : Op α} {M : α → S → Prop} (hP : R.Stable i P)
    (hrest : ∀ s, R.inv s → P s → R.rest i s)
    (hstep : R.Performs i P op (Answered M (R.rest i))) (hM : ∀ a, R.Stable i (M a)) :
    R.Triple i P (Program.request op) M (fun _ => R.rest i) :=
  .call hP (.of_rest hrest) hstep hM .rest

theorem Triple.ofExcept {x : Except ε α} {M : α → S → Prop} {N : S → Prop}
    (hP : R.Stable i P) (hok : ∀ a, x = .ok a → ∀ s, R.inv s → P s → M a s)
    (herr : ∀ s, R.inv s → P s → N s) :
    R.Triple i P (Program.ofExcept x) M (fun _ => N) := by
  cases x with
  | ok a => exact .pure hP (hok a rfl)
  | error e => exact .throw hP herr

theorem Triple.bind {p : Program Op ε β} {f : β → Program Op ε α} {M : β → S → Prop}
    (hp : R.Triple i P p M X) (hf : ∀ b, R.Triple i (M b) (f b) Q X) :
    R.Triple i P (p.bind f) Q X :=
  fun s hi hs => (hp s hi hs).bind hf hi

theorem Triple.tryCatch {p : Program Op ε α} {h : ε → Program Op ε α}
    {M : ε → S → Prop} (hp : R.Triple i P p Q M)
    (hh : ∀ e, R.Triple i (M e) (h e) Q X) :
    R.Triple i P (p.tryCatch h) Q X :=
  fun s hi hs => (hp s hi hs).tryCatch hh hi

theorem Triple.frame {p : Program Op ε α} {F : S → Prop} (hrely : R.Stable i F)
    (hguar : ∀ s t, R.inv s → R.inv t → R.guar i s t → F s → F t)
    (h : R.Triple i P p Q X) :
    R.Triple i (fun s => P s ∧ F s) p (fun a s => Q a s ∧ F s) X :=
  fun s hi hs => (h s hi hs.1).frame hrely hguar hi hs.2

/-- A program that only makes harmless requests, at all of which it may die. -/
theorem Triple.only {p : Program Op ε α} {ok : {β : Type} → Op β → Prop}
    (h : p.Only ok) (hP : R.Stable i P)
    (hkill : ∀ {β : Type} (op : Op β), ok op → R.Settled i P op)
    (hstep : ∀ {β : Type} (op : Op β), ok op → R.Performs i P op fun _ => P) :
    R.Triple i P p (fun _ => P) (fun _ => P) := by
  induction p with
  | pure a => exact .pure hP fun _ _ h => h
  | throw e => exact .throw hP fun _ _ h => h
  | await op k ih => exact .await hP (hkill op h.1) (hstep op h.1) fun r => ih r (h.2 r)

/-- A program that only makes harmless requests needs no further look at its
text. -/
theorem Triple.harmless {p : Program Op ε α} {ok : {β : Type} → Op β → Prop}
    (h : p.Only ok) (hP : R.Stable i P) (hkill : ∀ s, R.inv s → P s → R.rest i s)
    (hstep : ∀ {β : Type} (op : Op β), ok op → R.Performs i P op fun _ => P) :
    R.Triple i P p (fun _ => P) (fun _ => P) :=
  .only h hP (fun _ _ => .of_rest hkill) hstep

/-- Every slot's program is safe in the state the pool stands for. -/
structure Good (R : Rules sys S) (p : Pool Op ε W ι) (s : S) : Prop where
  world : R.world s = p.world
  inv : R.inv s
  slots : ∀ i, R.Safe i (fun _ => R.rest i) (fun _ => R.rest i) (p.slot i) s

/-- What the rules keep beside the world may change as every slot tolerates. -/
theorem Good.shift {p : Pool Op ε W ι} {s t : S} (h : R.Good p s) (hw : R.world t = p.world)
    (hi : R.inv t) (hr : ∀ i, R.rely i s t) : R.Good p t :=
  ⟨hw, hi, fun i => (h.slots i).later (hr i)⟩

/-- The event is not the performing of a request that is not permitted. -/
def Permitted (R : Rules sys S) (p : Pool Op ε W ι) (s : S) : Event ε ι τ E → Prop
  | .step i _ => (p.slot i).Awaiting fun op => R.permits i op s
  | _ => True

/-- Every task that may start in a resting slot is safe there. -/
def Starts (R : Rules sys S) : Prop :=
  ∀ i t s, R.inv s → R.rest i s → sys.ready (R.world s) i t = true →
    R.Safe i (fun _ => R.rest i) (fun _ => R.rest i) (sys.program t) s

theorem Good.init {s : S} {w : W} (hw : R.world s = w) (hi : R.inv s)
    (hr : ∀ i, R.rest i s) : R.Good (Pool.init w) s :=
  ⟨hw, hi, fun i _ ht hit => R.rest_stable hi hit ht (hr i)⟩

theorem Good.rest {p : Pool Op ε W ι} {s : S} (h : R.Good p s) {i : ι}
    (hf : (p.slot i).finished = true) : R.rest i s := by
  have hs := h.slots i
  cases hp : p.slot i with
  | pure _ | throw _ =>
      rw [hp] at hs
      exact hs s (R.rely_refl i s) h.inv
  | await op k => rw [hp] at hf; cases hf

variable [DecidableEq ι]

theorem Good.replace {p : Pool Op ε W ι} {s t : S} (h : R.Good p s) {i : ι}
    {w : W} {prog : Program Op ε Unit} (hw : R.world t = w) (hi : R.inv t)
    (hg : R.guar i s t)
    (hs : R.Safe i (fun _ => R.rest i) (fun _ => R.rest i) prog t) :
    R.Good ⟨w, Function.update p.slot i prog⟩ t := by
  refine ⟨hw, hi, ?_⟩
  intro j
  by_cases hj : j = i
  · subst j
    simpa only [Function.update_self] using hs
  · simp only [Function.update_of_ne hj]
    exact (h.slots j).later (R.guar_rely (Ne.symm hj) h.inv hi hg)

/-- A request that is performed keeps the guarantee of its slot. -/
theorem Good.step {p q : Pool Op ε W ι} {s : S} {i : ι} {out : Outcome ε} (h : R.Good p s)
    (hperm : (p.slot i).Awaiting fun op => R.permits i op s)
    (hn : sys.next p (.step i out : Event ε ι τ E) = some q) : ∃ t, R.Good q t ∧ R.guar i s t := by
  have hs := h.slots i
  simp only [System.next] at hn
  split at hn
  · rename_i op k hp
    rw [hp] at hs hperm
    split at hn <;> try contradiction
    rename_i hmay
    obtain ⟨⟨r, w⟩, hans, rfl⟩ := Option.map_eq_some_iff.mp hn
    rw [← h.world] at hmay hans
    obtain ⟨t, hw, hi, hg, hk⟩ := (hs s (R.rely_refl i s) h.inv).2 out r w hperm hmay hans
    exact ⟨t, h.replace hw hi hg hk, hg⟩
  · cases hn

theorem Good.next {p q : Pool Op ε W ι} {s : S} {e : Event ε ι τ E}
    (starts : R.Starts) (h : R.Good p s) (hperm : R.Permitted p s e)
    (hn : sys.next p e = some q) : ∃ t, R.Good q t ∧ R.hist s t := by
  cases e with
  | start i t =>
      simp only [System.next] at hn
      split at hn <;> cases hn
      rename_i hc
      rw [Bool.and_eq_true] at hc
      have hrest := h.rest hc.1
      refine ⟨s, h.replace h.world h.inv (R.guar_refl i s) ?_, R.hist_refl s⟩
      exact starts i t s h.inv hrest (h.world ▸ hc.2)
  | step i out =>
      obtain ⟨t, ht, hg⟩ := h.step hperm hn
      exact ⟨t, ht, R.guar_hist h.inv ht.inv hg⟩
  | kill i =>
      have hs := h.slots i
      simp only [System.next] at hn
      split at hn
      · rename_i op k hp
        rw [hp] at hs
        split at hn <;> cases hn
        rename_i hmay
        have hrest := (hs s (R.rely_refl i s) h.inv).1 (h.world ▸ hmay)
        refine ⟨s, h.replace h.world h.inv (R.guar_refl i s) ?_, R.hist_refl s⟩
        exact fun u hu hiu => R.rest_stable h.inv hiu hu hrest
      · cases hn
  | env e =>
      obtain ⟨w, hw, rfl⟩ := Option.map_eq_some_iff.mp hn
      obtain ⟨t, ht, hi, hh, hr⟩ := R.env_step h.inv (h.world ▸ hw)
      exact ⟨t, ⟨ht, hi, fun i => (h.slots i).later (hr i)⟩, hh⟩

/-- A slot that runs alone is safe for a postcondition of its own as long as it runs. -/
theorem Safe.solo {p q : Pool Op ε W ι} {s : S} {i : ι} {Q : Unit → S → Prop}
    {X : ε → S → Prop} {es : List (Event ε ι τ E)}
    (hp : ∀ {β : Type} (op : Op β) s, R.permits i op s) (hw : R.world s = p.world)
    (hi : R.inv s) (h : R.Safe i Q X (p.slot i) s) (hes : ∀ e ∈ es, e.solo i)
    (hq : sys.exec p es = some q) :
    ∃ t, R.world t = q.world ∧ R.inv t ∧ R.Safe i Q X (q.slot i) t := by
  induction es generalizing p s with
  | nil =>
      cases hq
      exact ⟨s, hw, hi, h⟩
  | cons e es ih =>
      obtain ⟨r, hr, hq⟩ := Option.bind_eq_some_iff.mp hq
      have hsolo := hes e List.mem_cons_self
      have hrest : ∀ e ∈ es, e.solo i := fun e he => hes e (List.mem_cons_of_mem _ he)
      cases e with
      | start _ _ | kill _ => cases hsolo
      | step j out =>
          cases hsolo
          simp only [System.next] at hr
          split at hr
          · rename_i op k hslot
            rw [hslot] at h
            split at hr <;> try contradiction
            rename_i hmay
            obtain ⟨⟨x, w⟩, hans, rfl⟩ := Option.map_eq_some_iff.mp hr
            rw [← hw] at hmay hans
            obtain ⟨t, ht, hit, _, hk⟩ :=
              (h s (R.rely_refl i s) hi).2 out x w (hp op s) hmay hans
            exact ih ht hit (by simpa only [Function.update_self] using hk) hrest hq
          · cases hr
      | env e =>
          obtain ⟨w, henv, rfl⟩ := Option.map_eq_some_iff.mp hr
          obtain ⟨t, ht, hit, _, hrely⟩ := R.env_step hi (hw ▸ henv)
          exact ih (p := { p with world := w }) ht hit (h.later (hrely i)) hrest hq

/-- A run whose requests are permitted where they are performed. -/
theorem Good.exec_along {c : {β : Type} → Pool Op ε W ι → ι → Op β → Prop}
    (hc : ∀ {β : Type} p s i (op : Op β), R.Good p s → c p i op → R.permits i op s)
    {p q : Pool Op ε W ι} {s : S} {es : List (Event ε ι τ E)} (starts : R.Starts)
    (h : R.Good p s) (hq : sys.exec p es = some q) (hes : sys.Along c p es) :
    ∃ t, R.Good q t ∧ R.hist s t := by
  induction es generalizing p s with
  | nil =>
      cases hq
      exact ⟨s, h, R.hist_refl s⟩
  | cons e es ih =>
      obtain ⟨r, hr, hq⟩ := Option.bind_eq_some_iff.mp hq
      simp only [System.Along, hr] at hes
      have hperm : R.Permitted p s e := by
        cases e with
        | start _ _ | kill _ | env _ => trivial
        | step i out =>
            have hasks : (p.slot i).Awaiting (c p i) := hes.1
            simp only [Permitted]
            cases hp : p.slot i with
            | pure _ | throw _ => trivial
            | await op k =>
                rw [hp] at hasks
                exact hc p s i op h hasks
      obtain ⟨t, ht, hst⟩ := h.next starts hperm hr
      obtain ⟨u, hu, htu⟩ := ih ht hq hes.2
      exact ⟨u, hu, R.hist_trans hst htu⟩

omit [DecidableEq ι] in
theorem Permitted.of_all (hp : ∀ {β : Type} i (op : Op β) s, R.permits i op s)
    (p : Pool Op ε W ι) (s : S) (e : Event ε ι τ E) : R.Permitted p s e := by
  cases e with
  | start _ _ | kill _ | env _ => trivial
  | step i out =>
      simp only [Permitted]
      cases p.slot i with
      | pure _ | throw _ => trivial
      | await op k => exact hp i op s

theorem Good.exec {p q : Pool Op ε W ι} {s : S} {es : List (Event ε ι τ E)}
    (hp : ∀ {β : Type} i (op : Op β) s, R.permits i op s) (starts : R.Starts)
    (h : R.Good p s) (hq : sys.exec p es = some q) : ∃ t, R.Good q t ∧ R.hist s t := by
  induction es generalizing p s with
  | nil =>
      cases hq
      exact ⟨s, h, R.hist_refl s⟩
  | cons e es ih =>
      obtain ⟨r, hr, hq⟩ := Option.bind_eq_some_iff.mp hq
      obtain ⟨t, ht, hst⟩ := h.next starts (.of_all hp p s e) hr
      obtain ⟨u, hu, htu⟩ := ih ht hq
      exact ⟨u, hu, R.hist_trans hst htu⟩

end Rules
end Async

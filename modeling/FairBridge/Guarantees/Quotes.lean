import FairBridge.Api.Quote
import FairBridge.Async.Admission
import FairBridge.Async.Rules
import FairBridge.Async.Steady
import FairBridge.Model.Environment

/-!
Requests for quotes under way together. Every order has an index and an address of its own,
is priced as configured, and is told to the client as it is filed. The check of how many
orders a client has outstanding is not part of their creation.
-/

namespace FairBridge.BuyQuote
open Store Async Async.Rules

variable {ι : Type} {cfg : Config} {policy : QuotePolicy} {root : Except JsError Unit}

/-- What an order promises, which no update changes. -/
def QuoteOrder.terms (d : QuoteOrder) : QuoteOrder :=
  { d with toBuyOrderDoc := { d.toBuyOrderDoc with
    status := .awaitingPayment
    paymentDetectedTxHash := none
    swapTxHash := none
    swapWfairOut := none
    burnTxHash := none
    releaseFairTxId := none
    errorMessage := none } }

/-- The order is within bounds, its destination well-formed, its payment what the pool and
the fees make of its amount, and its address the one of its index. -/
structure Priced (cfg : Config) (policy : QuotePolicy) (d : QuoteOrder) : Prop where
  currency : d.paymentCurrency = .usdcBase
  bounds : ∃ lo hi, policy.buyMinFair.toSats = .ok lo ∧ policy.buyMaxFair.toSats = .ok hi ∧
    lo ≤ d.fairAmountSats ∧ d.fairAmountSats ≤ hi
  destination : fairAddressRegex.test d.fairDestinationAddress.toList = true
  amount : ∃ usdcRaw, quoteUsdcPayment cfg (fun _ => .ok usdcRaw)
    (fairSatsToWfairWei d.fairAmountSats) = .ok d.paymentAmount
  key : ∃ index address, d.paymentHdIndex = some index ∧ d.paymentAddress = some address ∧
    cfg.deriveBuyPaymentKey index = .ok address

theorem Priced.of_terms {d e : QuoteOrder} (h : Priced cfg policy d) (he : e.terms = d.terms) :
    Priced cfg policy e := by
  have hd : Priced cfg policy d.terms := ⟨h.currency, h.bounds, h.destination, h.amount, h.key⟩
  have he : Priced cfg policy e.terms := he ▸ hd
  exact ⟨he.currency, he.bounds, he.destination, he.amount, he.key⟩

/-- What a client is told of an order, of which every one is paid in USDC. -/
def QuoteOrder.told (d : QuoteOrder) : Except JsError SerializedQuote :=
  serializeQuote d ⟨d.paymentAmount, 6, "USDC", "Base"⟩

/-- The world, and which request took which index. -/
abbrev QuoteState (ι : Type) := QuoteWorld × (Nat → Option ι)

def QuoteWorld.unused (w : QuoteWorld) (index : Nat) : Prop :=
  ∀ d ∈ w.orders.docs, d.paymentHdIndex ≠ some index

structure QuoteInv (cfg : Config) (policy : QuotePolicy) (s : QuoteState ι) : Prop where
  priced : ∀ d ∈ s.1.orders.docs, Priced cfg policy d
  below : ∀ d ∈ s.1.orders.docs, ∀ k, d.paymentHdIndex = some k → k < s.1.nextIndex
  indexes : ∀ d ∈ s.1.orders.docs, ∀ e ∈ s.1.orders.docs, d.paymentHdIndex = e.paymentHdIndex →
    d.id = e.id
  addresses : ∀ k, s.1.orders.UniqueAt k
  held : ∀ k i, s.2 k = some i → k < s.1.nextIndex
  answered : ∀ q, .created q ∈ s.1.answers → ∃ d ∈ s.1.orders.docs, d.told = .ok q

/-- The orders stay, with their terms. -/
def TermsKept (w w' : QuoteWorld) : Prop :=
  ∀ d ∈ w.orders.docs, ∃ e ∈ w'.orders.docs, e.terms = d.terms

/-- What a request may count on: nobody else uses the index that it holds. -/
structure IndexKept (i : ι) (s t : QuoteState ι) : Prop where
  held : ∀ k, s.2 k = some i → t.2 k = some i
  unused : ∀ k, s.2 k = some i → s.1.unused k → t.1.unused k
  orders : TermsKept s.1 t.1

theorem TermsKept.refl (w : QuoteWorld) : TermsKept w w := fun d hd => ⟨d, hd, rfl⟩

theorem TermsKept.trans {u v w : QuoteWorld} (h : TermsKept u v) (h' : TermsKept v w) :
    TermsKept u w := by
  intro d hd
  obtain ⟨e, he, hterms⟩ := h d hd
  obtain ⟨f, hf, hterms'⟩ := h' e he
  exact ⟨f, hf, hterms'.trans hterms⟩

theorem IndexKept.refl (i : ι) (s : QuoteState ι) : IndexKept i s s :=
  ⟨fun _ h => h, fun _ _ h => h, .refl _⟩

theorem IndexKept.trans {i : ι} {s t u : QuoteState ι} (h : IndexKept i s t)
    (h' : IndexKept i t u) : IndexKept i s u where
  held k hk := h'.held k (h.held k hk)
  unused k hk hu := h'.unused k (h.held k hk) (h.unused k hk hu)
  orders := h.orders.trans h'.orders

/-- The orders, the counter and what was told of the orders are as before. -/
structure SameQuotes (w w' : QuoteWorld) : Prop where
  orders : w'.orders = w.orders
  nextIndex : w'.nextIndex = w.nextIndex
  answers : ∀ q, .created q ∈ w'.answers → .created q ∈ w.answers

theorem SameQuotes.kept {w w' : QuoteWorld} (h : SameQuotes w w') (i : ι)
    (holder : Nat → Option ι) : IndexKept i (w, holder) (w', holder) :=
  ⟨fun _ hk => hk, fun _ _ hu d hd => hu d (h.orders ▸ hd),
    fun d hd => ⟨d, h.orders ▸ hd, rfl⟩⟩

theorem QuoteInv.same {s : QuoteState ι} {w : QuoteWorld} (hi : QuoteInv cfg policy s)
    (h : SameQuotes s.1 w) : QuoteInv cfg policy (w, s.2) where
  priced d hd := hi.priced d (h.orders ▸ hd)
  below d hd k hk := h.nextIndex ▸ hi.below d (h.orders ▸ hd) k hk
  indexes d hd e he := hi.indexes d (h.orders ▸ hd) e (h.orders ▸ he)
  addresses k := h.orders ▸ hi.addresses k
  held k i hk := h.nextIndex ▸ hi.held k i hk
  answered q hq := by
    obtain ⟨d, hd, hquote⟩ := hi.answered q (h.answers q hq)
    exact ⟨d, h.orders ▸ hd, hquote⟩

/-- The rest of the service works on the orders. -/
theorem mem_work {w : QuoteWorld} {filter : QuoteOrder → Bool} {u : BuyOrderSet} {e : QuoteOrder}
    (he : e ∈ (w.orders.modifyAll filter u).docs) :
    ∃ d ∈ w.orders.docs, e.terms = d.terms := by
  obtain ⟨d, hd, rfl⟩ := List.mem_map.mp he
  refine ⟨d, hd, ?_⟩
  split <;> rfl

theorem key_of_terms {d e : QuoteOrder} (h : e.terms = d.terms) : e.id = d.id ∧
    e.paymentHdIndex = d.paymentHdIndex ∧ e.paymentAddress = d.paymentAddress := by
  have hid : e.terms.id = d.terms.id := congrArg (fun d : QuoteOrder => d.id) h
  have hindex : e.terms.paymentHdIndex = d.terms.paymentHdIndex :=
    congrArg (fun d : QuoteOrder => d.paymentHdIndex) h
  have haddress : e.terms.paymentAddress = d.terms.paymentAddress :=
    congrArg (fun d : QuoteOrder => d.paymentAddress) h
  exact ⟨hid, hindex, haddress⟩

theorem told_of_terms {d e : QuoteOrder} (h : e.terms = d.terms) : e.told = d.told := by
  have hterms : e.terms.told = d.terms.told := congrArg QuoteOrder.told h
  exact hterms

theorem QuoteInv.work {s : QuoteState ι} (filter : QuoteOrder → Bool) (u : BuyOrderSet)
    (hi : QuoteInv cfg policy s) : QuoteInv cfg policy
      ({ s.1 with orders := s.1.orders.modifyAll filter u }, s.2) ∧
      ∀ i, IndexKept i s ({ s.1 with orders := s.1.orders.modifyAll filter u }, s.2) := by
  have hkept : TermsKept s.1 { s.1 with orders := s.1.orders.modifyAll filter u } := by
    intro d hd
    refine ⟨_, List.mem_map_of_mem hd, ?_⟩
    split <;> rfl
  refine ⟨⟨fun e he => ?_, fun e he k hk => ?_, fun e he f hf hindex => ?_, fun k e he f hf hek hfk
    => ?_, hi.held, fun q hq => ?_⟩, fun i => ⟨fun _ hk => hk, fun k _ hu e he => ?_, hkept⟩⟩
  · obtain ⟨d, hd, hterms⟩ := mem_work he
    exact (hi.priced d hd).of_terms hterms
  · obtain ⟨d, hd, hterms⟩ := mem_work he
    exact hi.below d hd k ((key_of_terms hterms).2.1 ▸ hk)
  · obtain ⟨d, hd, hterms⟩ := mem_work he
    obtain ⟨d', hd', hterms'⟩ := mem_work hf
    rw [(key_of_terms hterms).1, (key_of_terms hterms').1]
    refine hi.indexes d hd d' hd' ?_
    rw [← (key_of_terms hterms).2.1, ← (key_of_terms hterms').2.1, hindex]
  · obtain ⟨d, hd, hterms⟩ := mem_work he
    obtain ⟨d', hd', hterms'⟩ := mem_work hf
    refine ((key_of_terms hterms).1.trans ?_).trans (key_of_terms hterms').1.symm
    refine hi.addresses k d hd d' hd' ?_ ?_
    · exact (congrArg some (key_of_terms hterms).2.2).symm.trans hek
    · exact (congrArg some (key_of_terms hterms').2.2).symm.trans hfk
  · obtain ⟨d, hd, htold⟩ := hi.answered q hq
    obtain ⟨e, he, hterms⟩ := hkept d hd
    exact ⟨e, he, (told_of_terms hterms).trans htold⟩
  · obtain ⟨d, hd, hterms⟩ := mem_work he
    rw [(key_of_terms hterms).2.1]
    exact hu d hd

def quoteRules (ι : Type) (cfg : Config) (policy : QuotePolicy) (root : Except JsError Unit) :
    Rules (quoteApi ι cfg policy root) (QuoteState ι) where
  world s := s.1
  inv := QuoteInv cfg policy
  rely := IndexKept
  guar i s t := ∀ j, i ≠ j → IndexKept j s t
  rest _ _ := True
  hist _ _ := True
  rely_refl := .refl
  rely_trans := .trans
  guar_refl _ s _ _ := .refl _ s
  guar_rely hij _ _ h := h _ hij
  rest_stable _ _ _ _ := trivial
  hist_refl _ := trivial
  hist_trans _ _ := trivial
  guar_hist _ _ _ := trivial
  env_step {e s w} hi he := by
    cases e with
    | wait _ | market _ | restart =>
        have hsame : SameQuotes s.1 w := by
          cases he
          exact ⟨rfl, rfl, fun _ h => h⟩
        exact ⟨(w, s.2), rfl, hi.same hsame, trivial, fun i => hsame.kept i s.2⟩
    | work filter u =>
        simp only [quoteApi, QuoteEvent.occur] at he
        split at he <;> cases he
        obtain ⟨hinv, hkept⟩ := QuoteInv.work filter u hi
        exact ⟨_, rfl, hinv, trivial, hkept⟩

section Performs
variable {S β : Type} {R : Rules (quoteApi ι cfg policy root) S} {i : ι} {P : S → Prop}
  {op : QuoteOp β}

/-- A request is refused, or it has its effect and its answer may be lost. -/
theorem performs {M : Except ApiError β → S → Prop}
    (hfail : ∀ s e, R.inv s → P s → M (.error e) s)
    (heffect : ∀ s, R.inv s → P s → ∃ t, R.world t = (op.effect (R.world s)).2 ∧ R.inv t ∧
      R.guar i s t ∧ M (op.effect (R.world s)).1 t ∧ ∀ e, M (.error e) t) :
    R.Performs i P op M := by
  intro s out r w hi hs _ _ hans
  cases out with
  | done =>
      have hr : op.effect (R.world s) = (r, w) := Option.some.inj hans
      obtain ⟨t, hw, hit, hg, hM, _⟩ := heffect s hi hs
      rw [hr] at hw hM
      exact ⟨t, hw, hit, hg, hM⟩
  | fail e =>
      cases hans
      exact ⟨s, rfl, hi, R.guar_refl i s, hfail s e hi hs⟩
  | lost e =>
      cases hans
      obtain ⟨t, hw, hit, hg, _, hM⟩ := heffect s hi hs
      exact ⟨t, hw, hit, hg, hM e⟩

end Performs

section Outline
variable {α β : Type} {i : ι} {P : QuoteState ι → Prop} {op : QuoteOp β}

/-- The request neither files an order nor takes an index nor tells of an order. -/
def QuoteOp.beside {β : Type} : QuoteOp β → Bool
  | .create _ | .incNextIndex | .respond (.created _) => false
  | _ => true

theorem SameQuotes.of_effect (hop : op.beside = true) (w : QuoteWorld) :
    SameQuotes w (op.effect w).2 := by
  cases op with
  | create _ | incNextIndex => cases hop
  | respond answer =>
      refine ⟨rfl, rfl, fun q hq => ?_⟩
      obtain hq | hq := List.mem_append.mp hq
      · exact hq
      · obtain rfl := List.mem_singleton.mp hq
        cases hop
  | quoteExactOutputSingle _ _ amount _ =>
      simp only [QuoteOp.effect]
      split <;> exact ⟨rfl, rfl, fun _ h => h⟩
  | _ => exact ⟨rfl, rfl, fun _ h => h⟩

/-- The assertion outlasts what the others do. -/
def Lasts (i : ι) (P : QuoteState ι → Prop) : Prop := ∀ s t, IndexKept i s t → P s → P t

theorem Lasts.stable (hP : Lasts i P) : (quoteRules ι cfg policy root).Stable i P :=
  fun s t _ _ hst hs => hP s t hst hs

theorem Lasts.trivial : Lasts i fun _ => True := fun _ _ _ _ => True.intro

/-- A request beside the orders leaves what is known of them. -/
theorem quote_beside (hop : op.beside = true) (hP : Lasts i P) :
    (quoteRules ι cfg policy root).Performs i P op (Answered (fun _ => P) P) := by
  refine performs (fun _ _ _ hs => hs) fun s hi hs => ?_
  have hsame := SameQuotes.of_effect hop s.1
  have hPt : P ((op.effect s.1).2, s.2) := hP _ _ (hsame.kept i s.2) hs
  have hM : Answered (fun _ => P) P (op.effect s.1).1 ((op.effect s.1).2, s.2) := by
    cases (op.effect s.1).1 with
    | ok _ => exact hPt
    | error _ => exact hPt
  exact ⟨((op.effect s.1).2, s.2), rfl, hi.same hsame, fun j _ => hsame.kept j s.2, hM,
    fun _ => hPt⟩

theorem quote_only {p : QuotePromise α} (h : p.Only fun op => op.beside = true) (hP : Lasts i P) :
    (quoteRules ι cfg policy root).Triple i P p (fun _ => P) fun _ => P := by
  refine .harmless h hP.stable (fun _ _ _ => trivial) fun op hop => (quote_beside hop hP).post ?_
  intro r s _ hr
  cases r with
  | ok _ => exact hr
  | error _ => exact hr

/-- The request holds the index, and no order has it. -/
def HoldsIndex (i : ι) (index : Nat) (s : QuoteState ι) : Prop :=
  s.2 index = some i ∧ s.1.unused index

theorem HoldsIndex.lasts {index : Nat} : Lasts i (HoldsIndex i index) :=
  fun _ _ hst hs => ⟨hst.held index hs.1, hst.unused index hs.1 hs.2⟩

/-- The counter hands out an index that nobody has. -/
theorem inc_holds : (quoteRules ι cfg policy root).Performs i (fun _ => True) .incNextIndex
    (Answered (fun n => HoldsIndex i (n - 1)) fun _ => True) := by
  refine performs (fun _ _ _ _ => trivial) fun s hi _ => ?_
  have hfree : s.2 s.1.nextIndex = none := by
    cases hk : s.2 s.1.nextIndex with
    | none => rfl
    | some j => exact absurd (hi.held _ j hk) (Nat.lt_irrefl _)
  have hunused : s.1.unused s.1.nextIndex :=
    fun d hd hk => Nat.lt_irrefl _ (hi.below d hd _ hk)
  refine ⟨({ s.1 with nextIndex := s.1.nextIndex + 1 },
    Function.update s.2 s.1.nextIndex (some i)), rfl, ⟨hi.priced, fun d hd k hk => ?_, hi.indexes,
      hi.addresses, fun k j hk => ?_, hi.answered⟩, fun j _ => ⟨fun k hk => ?_, fun _ _ hu => hu,
      .refl _⟩, ⟨?_, hunused⟩, fun _ => trivial⟩
  · exact Nat.lt_succ_of_lt (hi.below d hd k hk)
  · by_cases hnext : k = s.1.nextIndex
    · rw [hnext]
      exact Nat.lt_succ_self _
    · have hold : s.2 k = some j := (Function.update_of_ne hnext _ _).symm.trans hk
      exact Nat.lt_succ_of_lt (hi.held k j hold)
  · have hne : k ≠ s.1.nextIndex := by
      rintro rfl
      cases hfree.symm.trans hk
    exact (Function.update_of_ne hne _ _).trans hk
  · exact Function.update_self _ _ _

/-- The order is filed as it was made. -/
def Recorded (d : QuoteOrder) (s : QuoteState ι) : Prop :=
  ∃ e ∈ s.1.orders.docs, e.terms = d.terms

theorem Recorded.lasts {d : QuoteOrder} : Lasts i (Recorded d) := by
  intro s t hst hs
  obtain ⟨e, he, hterms⟩ := hs
  obtain ⟨f, hf, hterms'⟩ := hst.orders e he
  exact ⟨f, hf, hterms'.trans hterms⟩

/-- Whoever holds the index may file an order with it. -/
theorem create_records {doc : QuoteOrder} {index : Nat} (hindex : doc.paymentHdIndex = some index)
    (hpriced : Priced cfg policy doc) :
    (quoteRules ι cfg policy root).Performs i (HoldsIndex i index) (.create doc)
      (Answered (fun d => Recorded d) fun _ => True) := by
  refine performs (fun _ _ _ _ => trivial) fun s hi hs => ?_
  obtain ⟨e, hc, _⟩ | ⟨_, hclash, hc⟩ := s.1.orders.create_cases quoteRefusals s.1.now doc
  · have hrun : (QuoteOp.create doc).effect s.1 = (.error e, s.1) := by
      simp only [QuoteOp.effect, Query.run, hc]
    rw [show (quoteRules ι cfg policy root).world s = s.1 from rfl, hrun]
    exact ⟨s, rfl, hi, fun j _ => .refl j s, trivial, fun _ => trivial⟩
  · have hrun : (QuoteOp.create doc).effect s.1 =
        (.ok (quoteOrderSchema.assign s.1.orders.nextId s.1.now doc),
          { s.1 with orders := s.1.orders.insert s.1.now doc }) := by
      simp only [QuoteOp.effect, Query.run, hc]
    rw [show (quoteRules ι cfg policy root).world s = s.1 from rfl, hrun]
    have hmem : ∀ e ∈ (s.1.orders.insert s.1.now doc).docs, e ∈ s.1.orders.docs ∨
        e = quoteOrderSchema.assign s.1.orders.nextId s.1.now doc := by
      intro e he
      obtain he | he := List.mem_append.mp he
      · exact Or.inl he
      · exact Or.inr (List.mem_singleton.mp he)
    have hnew : quoteOrderSchema.assign s.1.orders.nextId s.1.now doc ∈
        (s.1.orders.insert s.1.now doc).docs :=
      List.mem_append.mpr (Or.inr (List.mem_singleton_self _))
    have hkept : TermsKept s.1 { s.1 with orders := s.1.orders.insert s.1.now doc } :=
      fun d hd => ⟨d, List.mem_append.mpr (Or.inl hd), rfl⟩
    refine ⟨({ s.1 with orders := s.1.orders.insert s.1.now doc }, s.2), rfl, ⟨fun e he => ?_,
      fun e he k hk => ?_, fun e he f hf hsame => ?_, fun k => ?_, hi.held, fun q hq => ?_⟩,
      fun j hij => ⟨fun _ hk => hk, fun k hk hu e he => ?_, hkept⟩, ⟨_, hnew, rfl⟩,
      fun _ => trivial⟩
    · obtain he | rfl := hmem e he
      · exact hi.priced e he
      · exact ⟨hpriced.currency, hpriced.bounds, hpriced.destination, hpriced.amount, hpriced.key⟩
    · obtain he | rfl := hmem e he
      · exact hi.below e he k hk
      · cases hindex.symm.trans hk
        exact hi.held index i hs.1
    · obtain he | rfl := hmem e he
      · obtain hf | rfl := hmem f hf
        · exact hi.indexes e he f hf hsame
        · exact absurd (hsame.trans hindex) (hs.2 e he)
      · obtain hf | rfl := hmem f hf
        · exact absurd (hsame.symm.trans hindex) (hs.2 f hf)
        · rfl
    · exact (hi.addresses k).insert (.inr hclash)
    · obtain ⟨d, hd, htold⟩ := hi.answered q hq
      exact ⟨d, List.mem_append.mpr (Or.inl hd), htold⟩
    · obtain he | rfl := hmem e he
      · exact hu e he
      · intro hsame
        cases hindex.symm.trans hsame
        exact hij (Option.some.inj (hs.1.symm.trans hk))

/-- The client is told what is on file. -/
theorem respond_records {d : QuoteOrder} {q : SerializedQuote} (hq : d.told = .ok q) :
    (quoteRules ι cfg policy root).Performs i (Recorded d) (.respond (.created q))
      (Answered (fun _ _ => True) fun _ => True) := by
  refine performs (fun _ _ _ _ => trivial) fun s hi hs => ?_
  refine ⟨({ s.1 with answers := s.1.answers ++ [.created q] }, s.2), rfl, ⟨hi.priced, hi.below,
    hi.indexes, hi.addresses, hi.held, fun q' hq' => ?_⟩, fun j _ => ⟨fun _ hk => hk,
      fun _ _ hu => hu, .refl _⟩, trivial, fun _ => trivial⟩
  obtain hq' | hq' := List.mem_append.mp hq'
  · exact hi.answered q' hq'
  · cases List.mem_singleton.mp hq'
    obtain ⟨e, he, hterms⟩ := hs
    exact ⟨e, he, (told_of_terms hterms).trans hq⟩

/-- What a computation that does not raise has made. -/
theorem of_quoted {x : Except JsError α} (hP : Lasts i P) :
    (quoteRules ι cfg policy root).Triple i P (QuotePromise.of x) (fun a s => x = .ok a ∧ P s)
      fun _ => P := by
  refine .ofExcept hP.stable (fun a ha s _ hs => ⟨?_, hs⟩) fun _ _ hs => hs
  cases x with
  | ok b =>
      cases ha
      rfl
  | error e => cases ha

theorem respond_only {answer : QuoteAnswer} (h : ∀ q, answer ≠ .created q) :
    (call (.respond answer)).Only fun op => op.beside = true := by
  refine .request ?_
  cases answer with
  | created q => exact absurd rfl (h q)
  | refused _ _ _ | outOfBounds _ _ => rfl

/-- A payment is priced in USDC, by what the pool asks for. -/
theorem buildPaymentQuote_prices (paymentCurrency : PaymentCurrency) (wfairWei : Int) :
    (quoteRules ι cfg policy root).Triple i (fun _ => True)
      (buildPaymentQuote cfg policy paymentCurrency wfairWei)
      (fun quote _ => paymentCurrency = .usdcBase ∧ ∃ usdcRaw paymentAmount,
        quoteUsdcPayment cfg (fun _ => .ok usdcRaw) wfairWei = .ok paymentAmount ∧
        quote = ⟨paymentAmount, 6, "USDC", "Base"⟩)
      fun _ _ => True := by
  cases paymentCurrency with
  | usdcBase =>
      refine .bind (quote_only ?_ .trivial) fun usdcRaw => ?_
      · refine .bind (.bind (.request rfl) fun found => ?_) fun pool => .request rfl
        cases found with
        | some pool => trivial
        | none =>
            exact .bind (.request rfl) fun _ => .bind (.ofExcept _) fun _ =>
              .bind (.request rfl) fun _ => trivial
      · refine .bind (of_quoted .trivial) fun paymentAmount => ?_
        refine .fact (fun _ _ h => h.1) fun hamount => ?_
        exact .pure (fun _ _ _ _ _ h => h) fun _ _ _ => ⟨rfl, usdcRaw, paymentAmount, hamount, rfl⟩
  | ethBase | ethMainnet | btc | card => exact .throw (fun _ _ _ _ _ h => h) fun _ _ h => h

/-- An address is derived from an index that the request holds. -/
theorem allocate_holds :
    (quoteRules ι cfg policy root).Triple i (fun _ => True)
      (allocateNextBuyPaymentAddress cfg root)
      (fun key s => HoldsIndex i key.index s ∧ cfg.deriveBuyPaymentKey key.index = .ok key.address)
      fun _ _ => True := by
  refine .bind (quote_only (.ofExcept _) .trivial) fun _ => ?_
  refine .bind (.call (fun _ _ _ _ _ h => h) (fun _ _ _ _ => trivial) inc_holds
    (fun _ => HoldsIndex.lasts.stable) (fun _ _ _ _ _ h => h)) fun updated => ?_
  refine .bind (Triple.weaken (of_quoted HoldsIndex.lasts) (fun _ _ h => h) (fun _ _ _ h => h)
    fun _ _ _ _ => trivial) fun address => ?_
  refine .fact (fun _ _ h => h.1) fun haddress => ?_
  exact .pure (fun s t _ _ hst h => ⟨h.1, HoldsIndex.lasts s t hst h.2⟩)
    fun _ _ h => ⟨h.2, haddress⟩

theorem createOrder_records {body : QuoteBody} {clientIp : Option String} {fairSats : Int}
    {paymentAmount : Int} {key : DerivedBuyPaymentKey}
    (hpriced : ∀ expiresAt, Priced cfg policy
      (quotedOrder cfg body clientIp fairSats ⟨paymentAmount, 6, "USDC", "Base"⟩ key expiresAt)) :
    (quoteRules ι cfg policy root).Triple i (HoldsIndex i key.index)
      (createOrder cfg policy body clientIp fairSats ⟨paymentAmount, 6, "USDC", "Base"⟩ key)
      (fun _ _ => True) fun _ _ => True := by
  refine .bind (Triple.weaken (quote_only (.request rfl) HoldsIndex.lasts) (fun _ _ h => h)
    (fun _ _ _ h => h) fun _ _ _ _ => trivial) fun now => ?_
  refine .bind (Triple.weaken (of_quoted HoldsIndex.lasts) (fun _ _ h => h)
    (fun _ _ _ h => h.2) fun _ _ _ _ => trivial) fun expiresAt => ?_
  refine .bind (.call HoldsIndex.lasts.stable (fun _ _ _ _ => trivial)
    (create_records rfl (hpriced expiresAt)) (fun _ => Recorded.lasts.stable)
    (fun _ _ _ _ _ h => h)) fun created => ?_
  refine .bind (Triple.weaken (of_quoted Recorded.lasts) (fun _ _ h => h) (fun _ _ _ h => h)
    fun _ _ _ _ => trivial) fun q => ?_
  refine .fact (fun _ _ h => h.1) fun hq => ?_
  refine Triple.pre (P := Recorded created) ?_ fun _ _ h => h.2
  exact .call Recorded.lasts.stable (fun _ _ _ _ => trivial) (respond_records hq)
    (fun _ _ _ _ _ _ h => h) (fun _ _ _ _ _ h => h)

/-- A priced request holds an index until its order is filed. -/
theorem allocateAndCreate_records {body : QuoteBody} {clientIp : Option String} {fairSats : Int}
    {paymentAmount : Int}
    (hpriced : ∀ key expiresAt, cfg.deriveBuyPaymentKey key.index = .ok key.address →
      Priced cfg policy (quotedOrder cfg body clientIp fairSats
        ⟨paymentAmount, 6, "USDC", "Base"⟩ key expiresAt)) :
    (quoteRules ι cfg policy root).Triple i (fun _ => True)
      (allocateAndCreate cfg policy root body clientIp fairSats
        ⟨paymentAmount, 6, "USDC", "Base"⟩) (fun _ _ => True) fun _ _ => True := by
  rw [allocateAndCreate]
  split
  · exact quote_only (respond_only fun _ => by rintro ⟨⟩) .trivial
  · refine .bind (M := fun found s => ∀ key, found = some key → HoldsIndex i key.index s ∧
      cfg.deriveBuyPaymentKey key.index = .ok key.address) ?_ fun found => ?_
    · refine .tryCatch (M := fun _ _ => True) ?_ fun _ => ?_
      · refine .bind allocate_holds fun key => .pure ?_ fun s _ h k hk => ?_
        · exact fun s t _ _ hst h => ⟨HoldsIndex.lasts s t hst h.1, h.2⟩
        · cases hk
          exact h
      · refine .bind (quote_only (respond_only fun _ => by rintro ⟨⟩) .trivial) fun _ => ?_
        exact .pure (fun _ _ _ _ _ h => h) fun _ _ _ _ hk => by cases hk
    · cases found with
      | none => exact .pure (fun _ _ _ _ _ _ _ hk => by cases hk) fun _ _ _ => trivial
      | some key =>
          refine .fact (F := cfg.deriveBuyPaymentKey key.index = .ok key.address)
            (fun s _ h => (h key rfl).2) fun hkey => ?_
          exact Triple.pre (createOrder_records fun expiresAt => hpriced key expiresAt hkey)
            fun s _ h => (h key rfl).1

theorem priceAndFile_records {body : QuoteBody} {clientIp : Option String} {fairSats lo hi : Int}
    (hbody : quoteBody body = true) (hlo : policy.buyMinFair.toSats = .ok lo)
    (hhi : policy.buyMaxFair.toSats = .ok hi) (hmin : lo ≤ fairSats) (hmax : fairSats ≤ hi) :
    (quoteRules ι cfg policy root).Triple i (fun _ => True)
      (priceAndFile cfg policy root body clientIp fairSats) (fun _ _ => True)
      fun _ _ => True := by
  have hdest : fairAddressRegex.test body.fairDestinationAddress.toList = true := by
    simp only [quoteBody, Bool.and_eq_true] at hbody
    exact hbody.1.2
  refine .bind (quote_only (.tryCatch (.request rfl) fun _ => trivial) .trivial) fun isvalid => ?_
  split
  · exact quote_only (respond_only fun _ => by rintro ⟨⟩) .trivial
  · refine .bind (M := fun found _ => ∀ quote, found = some quote →
      body.paymentCurrency = .usdcBase ∧ ∃ usdcRaw paymentAmount,
        quoteUsdcPayment cfg (fun _ => .ok usdcRaw) (fairSatsToWfairWei fairSats) =
          .ok paymentAmount ∧ quote = ⟨paymentAmount, 6, "USDC", "Base"⟩) ?_ fun found => ?_
    · refine .tryCatch (M := fun _ _ => True) ?_ fun err => ?_
      · refine .bind (buildPaymentQuote_prices _ _) fun quote => .pure (fun _ _ _ _ _ h => h)
          fun _ _ h q hq => ?_
        cases hq
        exact h
      · refine .bind (M := fun _ _ => True) (quote_only ?_ .trivial) fun _ =>
          .pure (fun _ _ _ _ _ h => h) fun _ _ _ _ hk => by cases hk
        cases err <;> exact respond_only fun _ => by rintro ⟨⟩
    · cases found with
      | none => exact .pure (fun _ _ _ _ _ _ _ hk => by cases hk) fun _ _ _ => trivial
      | some quote =>
          refine .fact (fun s _ h => h quote rfl) fun hquote => ?_
          obtain ⟨hcurrency, usdcRaw, paymentAmount, husdc, rfl⟩ := hquote
          refine Triple.pre (allocateAndCreate_records fun key expiresAt hkey => ?_)
            fun _ _ _ => trivial
          exact ⟨hcurrency, ⟨lo, hi, hlo, hhi, hmin, hmax⟩, hdest, ⟨usdcRaw, husdc⟩,
            key.index, key.address, rfl, rfl, hkey⟩

theorem tooManyOutstanding_only (clientIp : Option String) :
    (tooManyOutstanding clientIp).Only fun op => op.beside = true := by
  rw [tooManyOutstanding]
  split
  · exact .bind (.request rfl) fun _ => trivial
  · trivial

theorem postQuote_records (body : QuoteBody) (clientIp : Option String) :
    (quoteRules ι cfg policy root).Triple i (fun _ => True)
      (postQuote cfg policy root body clientIp) (fun _ _ => True) fun _ _ => True := by
  rw [postQuote]
  split
  · rename_i hbody
    refine .tryCatch (M := fun _ _ => True) ?_ fun _ =>
      quote_only (respond_only fun _ => by rintro ⟨⟩) .trivial
    refine .bind (quote_only (tooManyOutstanding_only clientIp) .trivial) fun many => ?_
    split
    · exact quote_only (respond_only fun _ => by rintro ⟨⟩) .trivial
    · refine .bind (quote_only (.ofExcept _) .trivial) fun fairSats => ?_
      refine .bind (of_quoted .trivial) fun lo => .fact (fun _ _ h => h.1) fun hlo => ?_
      refine .bind (Triple.pre (of_quoted .trivial) fun _ _ _ => trivial) fun hi =>
        .fact (fun _ _ h => h.1) fun hhi => ?_
      refine Triple.pre (P := fun _ => True) ?_ fun _ _ _ => trivial
      split
      · exact quote_only (respond_only fun _ => by rintro ⟨⟩) .trivial
      · split
        · exact quote_only (respond_only fun _ => by rintro ⟨⟩) .trivial
        · exact priceAndFile_records hbody hlo hhi (by omega) (by omega)
  · exact quote_only (respond_only fun _ => by rintro ⟨⟩) .trivial

end Outline

/-- Nothing has been filed or told yet. -/
def QuoteWorld.Fresh (w : QuoteWorld) : Prop := w.orders.docs = [] ∧ w.answers = []

theorem QuoteInv.initial {w : QuoteWorld} (hw : w.Fresh) :
    QuoteInv cfg policy ((w, fun _ => none) : QuoteState ι) := by
  have hnone : ∀ d, d ∉ w.orders.docs := fun d hd => by
    rw [hw.1] at hd
    cases hd
  refine ⟨fun d hd => absurd hd (hnone d), fun d hd => absurd hd (hnone d),
    fun d hd => absurd hd (hnone d), fun k d hd => absurd hd (hnone d), fun k i hk => ?_,
    fun q hq => ?_⟩
  · cases hk
  · have hq : QuoteAnswer.created q ∈ w.answers := hq
    rw [hw.2] at hq
    cases hq

namespace Sample

def quoteConfig : Config where
  buyPaymentHdXprv := some "xprv"
  deriveBuyPaymentKey n := .ok ⟨n⟩

def quotePolicy : QuotePolicy where
  usdcBaseAddress := ⟨1⟩
  wfairContractAddress := ⟨2⟩
  wfairUsdcPoolAddress := ⟨3⟩

/-- A pool of the two tokens, at the price of one USDC for one FAIR. -/
def quoteWorld : QuoteWorld where
  pool := (⟨1⟩, ⟨2⟩, 3000)
  quoteOut wfairWei := some (wfairWei / 1000000000000)

def body : QuoteBody := ⟨"100", .usdcBase, "FAbcdefghijkmnopqrst", none⟩

/-- Two requests of a client take turns. -/
def together : List (Event ApiError (Fin 2) QuoteRequest QuoteEvent) :=
  .start 0 ⟨body, some "ip"⟩ :: .start 1 ⟨body, some "ip"⟩ ::
    (List.replicate 10 [.step 0 .done, .step 1 .done]).flatten

end Sample

section Outstanding
variable {ip : String} {α β : Type}

/-- How many orders of the client await their payment. -/
def QuoteWorld.outstanding (w : QuoteWorld) (ip : String) : Nat :=
  (w.orders.docs.filter (BuyQuote.outstanding ip)).length

/-- No order comes to await its payment by the work of the rest of the service. -/
theorem outstanding_work {w : QuoteWorld} {filter : QuoteOrder → Bool} {u : BuyOrderSet}
    (hu : u.status ≠ some .awaitingPayment) :
    ({ w with orders := w.orders.modifyAll filter u } : QuoteWorld).outstanding ip ≤
      w.outstanding ip := by
  rw [QuoteWorld.outstanding, QuoteWorld.outstanding, ← List.countP_eq_length_filter,
    ← List.countP_eq_length_filter]
  refine (List.countP_map).trans_le (List.countP_mono_left fun d _ hd => ?_)
  simp only [Function.comp_apply] at hd
  split at hd
  · simp only [BuyQuote.outstanding, quoteOrderSchema, BuyOrderSet.apply, Bool.and_eq_true,
      beq_iff_eq] at hd ⊢
    refine ⟨hd.1, ?_⟩
    cases hstatus : u.status with
    | none =>
        rw [hstatus] at hd
        exact hd.2
    | some status =>
        rw [hstatus] at hd
        exact absurd (hstatus.trans (congrArg some hd.2)) hu
  · exact hd

def QuoteOp.enters (ip : String) {β : Type} : QuoteOp β → Prop
  | .create doc => doc.clientIp = some ip
  | _ => False

def QuoteOp.admits (ip : String) {β : Type} : QuoteOp β → Except ApiError β → Prop
  | .countDocuments filter, .ok n => filter = BuyQuote.outstanding ip ∧ n < maxAwaitingPerIp
  | _, _ => False

/-- A client is admitted by the check, and files an order. -/
def quoteAdmission (ip : String) : Admission QuoteOp ApiError :=
  ⟨QuoteOp.enters ip, QuoteOp.admits ip⟩

theorem outstanding_create (w : QuoteWorld) (doc : QuoteOrder) :
    ((QuoteOp.create doc).effect w).2.outstanding ip ≤ w.outstanding ip + 1 ∧
      (doc.clientIp ≠ some ip →
        ((QuoteOp.create doc).effect w).2.outstanding ip ≤ w.outstanding ip) := by
  obtain ⟨e, hc, _⟩ | ⟨_, _, hc⟩ := w.orders.create_cases quoteRefusals w.now doc
  · have hrun : ((QuoteOp.create doc).effect w).2 = w := by
      simp only [QuoteOp.effect, Query.run, hc]
    rw [hrun]
    exact ⟨Nat.le_succ _, fun _ => Nat.le_refl _⟩
  · have hcount : ((QuoteOp.create doc).effect w).2.outstanding ip = w.outstanding ip +
        ([quoteOrderSchema.assign w.orders.nextId w.now doc].filter
          (BuyQuote.outstanding ip)).length := by
      simp only [QuoteOp.effect, Query.run, hc, QuoteWorld.outstanding, Collection.insert,
        List.filter_append, List.length_append]
    rw [hcount]
    refine ⟨Nat.add_le_add_left (List.length_filter_le _ _) _, fun hne => ?_⟩
    have hno : BuyQuote.outstanding ip (quoteOrderSchema.assign w.orders.nextId w.now doc) =
        false := by
      simp [BuyQuote.outstanding, quoteOrderSchema, hne]
    rw [List.filter_cons_of_neg (by rw [hno]; exact Bool.false_ne_true)]
    exact Nat.le_refl _

/-- No request but a creation touches the orders. -/
theorem outstanding_effect (op : QuoteOp β) (w : QuoteWorld) :
    (op.effect w).2.outstanding ip ≤ w.outstanding ip + 1 ∧
      (¬ op.enters ip → (op.effect w).2.outstanding ip ≤ w.outstanding ip) := by
  cases op with
  | create doc => exact outstanding_create w doc
  | quoteExactOutputSingle _ _ amount _ =>
      simp only [QuoteOp.effect]
      split <;> exact ⟨Nat.le_succ _, fun _ => Nat.le_refl _⟩
  | _ => exact ⟨Nat.le_succ _, fun _ => Nat.le_refl _⟩

/-- A request has no effect or its own. -/
theorem resolve_world {op : QuoteOp β} {w v : QuoteWorld} {out : Async.Outcome ApiError}
    {r : Except ApiError β} (hans : out.resolve (fun w => some (op.effect w)) w = some (r, v)) :
    v = w ∨ v = (op.effect w).2 := by
  cases out with
  | done => exact Or.inr (congrArg Prod.snd (Option.some.inj hans)).symm
  | fail e =>
      cases hans
      exact Or.inl rfl
  | lost e =>
      cases hans
      exact Or.inr rfl

/-- An answer that admits the client was counted below the limit. -/
theorem admits_effect {op : QuoteOp β} {w v : QuoteWorld} {out : Async.Outcome ApiError}
    {r : Except ApiError β} (hans : out.resolve (fun w => some (op.effect w)) w = some (r, v))
    (hr : op.admits ip r) : v.outstanding ip < maxAwaitingPerIp := by
  cases op with
  | countDocuments filter =>
      cases out with
      | done =>
          cases hans
          obtain ⟨rfl, hn⟩ := hr
          exact hn
      | fail e | lost e =>
          cases hans
          exact absurd hr id
  | _ => exact absurd hr id

/-- The request neither counts the orders nor files one. -/
def QuoteOp.besideOrders {β : Type} : QuoteOp β → Prop
  | .countDocuments _ | .create _ => False
  | _ => True

theorem respond_beside (answer : QuoteAnswer) :
    (call (.respond answer)).Only QuoteOp.besideOrders := .request trivial

theorem getPoolMeta_beside : (getPoolMeta policy).Only QuoteOp.besideOrders := by
  refine .bind (.request trivial) fun found => ?_
  cases found with
  | some pool => trivial
  | none =>
      exact .bind (.request trivial) fun _ => .bind (.ofExcept _) fun _ =>
        .bind (.request trivial) fun _ => trivial

theorem buildPaymentQuote_beside (paymentCurrency : PaymentCurrency) (wfairWei : Int) :
    (buildPaymentQuote cfg policy paymentCurrency wfairWei).Only QuoteOp.besideOrders := by
  cases paymentCurrency with
  | usdcBase =>
      exact .bind (.bind getPoolMeta_beside fun _ => .request trivial) fun _ =>
        .bind (.ofExcept _) fun _ => trivial
  | ethBase | ethMainnet | btc | card => trivial

theorem allocate_beside :
    (allocateNextBuyPaymentAddress cfg root).Only QuoteOp.besideOrders :=
  .bind (.ofExcept _) fun _ => .bind (.request trivial) fun _ =>
    .bind (.ofExcept _) fun _ => trivial

theorem QuoteOp.neutral {op : QuoteOp β} (h : op.besideOrders) :
    (quoteAdmission ip).Neutral op := by
  cases op with
  | countDocuments _ | create _ => cases h
  | _ => exact ⟨id, fun _ => id⟩

/-- What neither counts nor files neither admits a client nor makes an entry. -/
theorem neutral_of_beside {α : Type} {p : QuotePromise α} (h : p.Only QuoteOp.besideOrders) :
    p.Only fun op => (quoteAdmission ip).Neutral op := h.mono fun _ => QuoteOp.neutral

theorem respond_asks {admitted : Prop} (answer : QuoteAnswer) :
    (quoteAdmission ip).Asks (fun _ _ => True) admitted (call (.respond answer)) :=
  .of_neutral (neutral_of_beside (respond_beside answer)) fun _ => trivial

/-- A request that may file one order files no second one. -/
theorem priceAndFile_asks {body : QuoteBody} {clientIp : Option String} {fairSats : Int}
    {admitted : Prop} (h : clientIp = some ip → admitted) :
    (quoteAdmission ip).Asks (fun _ _ => True) admitted
      (priceAndFile cfg policy root body clientIp fairSats) := by
  refine .after (neutral_of_beside (.tryCatch (.request trivial) fun _ => trivial))
    (fun _ => trivial) fun isvalid => ?_
  split
  · exact respond_asks _
  refine .after (neutral_of_beside (.tryCatch (.bind (buildPaymentQuote_beside _ _) fun _ =>
    trivial) fun err => .bind ?_ fun _ => trivial)) (fun _ => trivial) fun found => ?_
  · cases err <;> exact respond_beside _
  cases found with
  | none => trivial
  | some quote =>
      change (quoteAdmission ip).Asks _ _ (allocateAndCreate cfg policy root body clientIp _ quote)
      rw [allocateAndCreate]
      split
      · exact respond_asks _
      refine .after (neutral_of_beside (.tryCatch (.bind allocate_beside fun _ => trivial) fun _ =>
        .bind (respond_beside _) fun _ => trivial)) (fun _ => trivial) fun found => ?_
      cases found with
      | none => trivial
      | some key =>
          refine .after (neutral_of_beside (.request trivial)) (fun _ => trivial) fun now => ?_
          refine .after (.ofExcept _) (fun _ => trivial) fun expiresAt => ?_
          refine .bind (Q := fun _ _ => True) ⟨h, fun r => ?_⟩ (fun created b _ => ?_)
            fun _ _ _ => trivial
          · cases r <;> trivial
          · exact .after (.ofExcept _) (fun _ => trivial) fun q => respond_asks _

/-- The check lets a client on that was counted below the limit. -/
theorem tooManyOutstanding_asks {clientIp : Option String} (hip : ip ≠ "") :
    (quoteAdmission ip).Asks (fun many admitted => many = .ok false → clientIp = some ip →
      admitted) False (tooManyOutstanding clientIp) := by
  rw [tooManyOutstanding]
  split
  · rename_i ip' hsome
    refine ⟨id, fun r => ?_⟩
    cases r with
    | error e => rintro ⟨⟩
    | ok n =>
        intro hmany hclient
        rw [hclient, Option.filter_eq_some_iff] at hsome
        cases hsome.1
        have hlt : ¬ maxAwaitingPerIp ≤ n := of_decide_eq_false (Except.ok.inj hmany)
        exact Or.inl ⟨rfl, Nat.lt_of_not_le hlt⟩
  · rename_i hnone
    intro _ hclient
    rw [hclient, Option.filter_some, if_pos (by simpa using hip)] at hnone
    cases hnone

theorem postQuote_asks (hip : ip ≠ "") (body : QuoteBody) (clientIp : Option String) :
    (quoteAdmission ip).Asks (fun _ _ => True) False
      (postQuote cfg policy root body clientIp) := by
  rw [postQuote]
  split
  · refine .tryCatch (Q := fun _ _ => True) ?_ (fun _ _ _ => trivial) fun _ _ _ => respond_asks _
    refine .bind (tooManyOutstanding_asks hip) (fun many admitted hmany => ?_)
      fun _ _ _ => trivial
    split
    · exact respond_asks _
    · rename_i hfew
      have hadmitted : clientIp = some ip → admitted :=
        hmany (congrArg Except.ok (Bool.eq_false_of_not_eq_true hfew))
      refine .after (.ofExcept _) (fun _ => trivial) fun fairSats => ?_
      refine .after (.ofExcept _) (fun _ => trivial) fun lo => ?_
      refine .after (.ofExcept _) (fun _ => trivial) fun hi => ?_
      split
      · exact respond_asks _
      · split
        · exact respond_asks _
        · exact priceAndFile_asks hadmitted
  · exact respond_asks _

def quoteGate (ι : Type) (cfg : Config) (policy : QuotePolicy) (root : Except JsError Unit)
    (hip : ip ≠ "") : Gate (quoteApi ι cfg policy root) where
  toAdmission := quoteAdmission ip
  count w := w.outstanding ip
  limit := maxAwaitingPerIp
  env {e v w} he := by
    cases e with
    | wait _ | market _ | restart =>
        cases he
        exact Nat.le_refl _
    | work filter u =>
        simp only [quoteApi, QuoteEvent.occur] at he
        split at he <;> cases he
        rename_i hu
        exact outstanding_work hu
  tasks _ := postQuote_asks hip _ _
  step {β i op out r v w} hans := by
    obtain rfl | rfl := resolve_world hans
    · exact ⟨Nat.le_succ _, fun _ => Nat.le_refl _, admits_effect hans⟩
    · exact ⟨(outstanding_effect op v).1, (outstanding_effect op v).2, admits_effect hans⟩

/-- However many requests of one client are under way, its orders that await their payment
are fewer than the limit and the requests at once, unless there were more before. -/
theorem outstanding_bounded [Fintype ι] [DecidableEq ι] (cfg : Config) (policy : QuotePolicy)
    (root : Except JsError Unit) {w : QuoteWorld}
    {es : List (Event ApiError ι QuoteRequest QuoteEvent)} {q : Pool QuoteOp ApiError QuoteWorld ι}
    (hip : ip ≠ "") (hq : (quoteApi ι cfg policy root).exec (.init w) es = some q) :
    q.world.outstanding ip ≤ max (w.outstanding ip) (maxAwaitingPerIp + Fintype.card ι - 1) :=
  (quoteGate ι cfg policy root hip).count_exec hq

namespace Sample

def openOrder (n : Nat) : QuoteOrder where
  id := n
  fairDestinationAddress := "FAbcdefghijkmnopqrst"
  paymentAddress := some ⟨100 + n⟩
  clientIp := some "ip"

/-- The client has one order less than it may have. -/
def crowded : QuoteWorld :=
  { quoteWorld with orders := ⟨(List.range 19).map openOrder, 19, by decide, by decide⟩ }

end Sample

/-- Two requests at once file an order more than the limit. -/
theorem two_requests_exceed : ∃ q,
    (quoteApi (Fin 2) Sample.quoteConfig Sample.quotePolicy (.ok ())).exec (.init Sample.crowded)
      Sample.together = some q ∧
    q.world.outstanding "ip" = maxAwaitingPerIp + 1 ∧
    q.world.outstanding "ip" ≤
      max (Sample.crowded.outstanding "ip") (maxAwaitingPerIp + 2 - 1) := by
  have h : ((quoteApi (Fin 2) Sample.quoteConfig Sample.quotePolicy (.ok ())).exec
      (.init Sample.crowded) Sample.together).map
        (fun q => q.world.outstanding "ip") = some 21 := by
    decide +kernel
  obtain ⟨q, hq, hcount⟩ := Option.map_eq_some_iff.mp h
  exact ⟨q, hq, hcount, outstanding_bounded Sample.quoteConfig Sample.quotePolicy (.ok ())
    (by decide) hq⟩

end Outstanding

end FairBridge.BuyQuote

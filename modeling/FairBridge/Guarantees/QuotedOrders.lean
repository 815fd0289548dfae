import FairBridge.Async.Steady
import FairBridge.Guarantees.Quotes
import FairBridge.Model.Requests
import Mathlib.Logic.Relation

/-!
The orders that the quotes file are those that the rest of the service takes from its
surroundings. Whatever the requests do, the service sees a new order that nobody has paid
yet, under an address of its own, or what it did itself.
-/

namespace FairBridge.BuyQuote
open Store Async Relation

variable {ι : Type} {cfg : Config} {policy : QuotePolicy} {root : Except JsError Unit}

/-- The orders without what is kept for the API. -/
def QuoteWorld.buyOrders (w : QuoteWorld) : Collection buyOrderSchema where
  docs := w.orders.docs.map QuoteOrder.toBuyOrderDoc
  nextId := w.orders.nextId
  nodup := by
    rw [List.map_map]
    exact w.orders.nodup
  below := by
    intro o ho
    obtain ⟨d, hd, rfl⟩ := List.mem_map.mp ho
    exact w.orders.below d hd

/-- The service's world, with the orders and the clock of the API. -/
def QuoteWorld.onto (w : QuoteWorld) (v : World) : World :=
  { v with now := w.now, buyOrders := w.buyOrders }

/-- What the service sees of the orders: time passes, an order is quoted, and the service
works on its orders. -/
inductive OrdersMove : World → World → Prop where
  | wait (ms : Nat) {v v' : World} (h : (EnvEvent.wait ms).occur v = some v') : OrdersMove v v'
  | quote (o : BuyOrderDoc) {v v' : World} (h : (EnvEvent.quote o).occur v = some v') :
      OrdersMove v v'
  | work (filter : BuyOrderDoc → Bool) (u : BuyOrderSet) {v : World}
      (hu : u.status ≠ some .awaitingPayment) : OrdersMove v (v.setBuyOrders filter u)

/-- A request that files an order files one that nobody has paid, under an address. -/
def QuoteOp.unpaid {β : Type} : QuoteOp β → Prop
  | .create doc => doc.status = .awaitingPayment ∧ doc.swapTxHash = none ∧
      doc.burnTxHash = none ∧ doc.paymentAddress.isSome
  | _ => True

/-- What neither counts nor files an order files none that is paid. -/
theorem unpaid_of_beside {α : Type} {p : QuotePromise α} (h : p.Only QuoteOp.besideOrders) :
    p.Only QuoteOp.unpaid := by
  refine h.mono fun op hop => ?_
  cases op with
  | create _ => cases hop
  | _ => trivial

theorem allocateAndCreate_unpaid (body : QuoteBody) (clientIp : Option String) (fairSats : Int)
    (quote : PaymentQuote) :
    (allocateAndCreate cfg policy root body clientIp fairSats quote).Only QuoteOp.unpaid := by
  rw [allocateAndCreate]
  split
  · exact .request trivial
  · refine .bind (.tryCatch (.bind (unpaid_of_beside allocate_beside) fun _ => trivial) fun _ =>
      .bind (.request trivial) fun _ => trivial) fun found => ?_
    cases found with
    | none => trivial
    | some key =>
        refine .bind (.request trivial) fun now => .bind (.ofExcept _) fun expiresAt => ?_
        refine .bind (.request ⟨rfl, rfl, rfl, rfl⟩) fun created => ?_
        exact .bind (.ofExcept _) fun q => .request trivial

theorem postQuote_unpaid (body : QuoteBody) (clientIp : Option String) :
    (postQuote cfg policy root body clientIp).Only QuoteOp.unpaid := by
  rw [postQuote]
  split
  · refine .tryCatch (.bind ?_ fun many => ?_) fun _ => .request trivial
    · rw [tooManyOutstanding]
      split
      · exact .bind (.request trivial) fun _ => trivial
      · trivial
    · split
      · exact .request trivial
      · refine .bind (.ofExcept _) fun fairSats => .bind (.ofExcept _) fun lo =>
          .bind (.ofExcept _) fun hi => ?_
        split
        · exact .request trivial
        split
        · exact .request trivial
        refine .bind (.tryCatch (.request trivial) fun _ => trivial) fun isvalid => ?_
        split
        · exact .request trivial
        refine .bind (.tryCatch (.bind (unpaid_of_beside (buildPaymentQuote_beside _ _))
          fun _ => trivial) fun err => .bind ?_ fun _ => trivial) fun found => ?_
        · cases err <;> exact .request trivial
        · cases found with
          | none => trivial
          | some quote => exact allocateAndCreate_unpaid body clientIp fairSats quote
  · exact .request trivial

section Moves
variable {w : QuoteWorld} {β : Type}

theorem buyOrders_insert (w : QuoteWorld) (doc : QuoteOrder) :
    ({ w with orders := w.orders.insert w.now doc } : QuoteWorld).buyOrders =
      w.buyOrders.insert w.now doc.toBuyOrderDoc := by
  refine Collection.ext ?_ rfl
  exact List.map_append

/-- Orders are told apart by their identifiers. -/
theorem buyOrders_work (w : QuoteWorld) (filter : QuoteOrder → Bool) (u : BuyOrderSet) :
    ({ w with orders := w.orders.modifyAll filter u } : QuoteWorld).buyOrders =
      w.buyOrders.modifyAll
        (fun o => w.orders.docs.any fun d => d.id == o.id && filter d) u := by
  have hfilter : ∀ d ∈ w.orders.docs,
      (w.orders.docs.any fun e => e.id == d.id && filter e) = filter d := by
    intro d hd
    rw [Bool.eq_iff_iff, List.any_eq_true]
    constructor
    · rintro ⟨e, he, h⟩
      rw [Bool.and_eq_true, beq_iff_eq] at h
      have hsame : e = d := by
        have hget := Collection.get_of_mem he
        rw [show quoteOrderSchema.id e = quoteOrderSchema.id d from h.1,
          Collection.get_of_mem hd] at hget
        exact (Option.some.inj hget).symm
      exact hsame ▸ h.2
    · intro h
      exact ⟨d, hd, by rw [h, beq_self_eq_true, Bool.and_self]⟩
  refine Collection.ext ?_ rfl
  simp only [QuoteWorld.buyOrders, Collection.modifyAll, List.map_map]
  refine List.map_congr_left fun d hd => ?_
  have hif := hfilter d hd
  simp only [Function.comp_apply, hif]
  split <;> rfl

/-- An order that could be filed has a new address. -/
theorem create_moves {doc : QuoteOrder} (hdoc : (QuoteOp.create doc).unpaid) (v : World) :
    ReflTransGen OrdersMove (w.onto v) (((QuoteOp.create doc).effect w).2.onto v) := by
  obtain ⟨e, hc, _⟩ | ⟨_, hclash, hc⟩ := w.orders.create_cases quoteRefusals w.now doc
  · have hrun : ((QuoteOp.create doc).effect w).2 = w := by
      simp only [QuoteOp.effect, Query.run, hc]
    rw [hrun]
  · have hrun : ((QuoteOp.create doc).effect w).2 =
        { w with orders := w.orders.insert w.now doc } := by
      simp only [QuoteOp.effect, Query.run, hc]
    have hnew : (w.onto v).buyOrders.docs.all
        (fun e => e.paymentAddress != doc.paymentAddress) = true := by
      refine List.all_eq_true.mpr fun o ho => ?_
      obtain ⟨d, hd, rfl⟩ := List.mem_map.mp ho
      refine bne_iff_ne.mpr fun hsame => ?_
      have hid : d.id = w.orders.nextId :=
        Collection.clashes_false hclash (k := doc.paymentAddress) rfl hd (congrArg some hsame)
      exact absurd hid (Nat.ne_of_lt (w.orders.below d hd))
    obtain ⟨hstatus, hswap, hburn, haddress⟩ := hdoc
    refine .single (.quote doc.toBuyOrderDoc ?_)
    simp only [EnvEvent.occur]
    rw [if_pos ⟨hstatus, hswap, hburn, haddress, hnew⟩, hrun]
    simp only [QuoteWorld.onto, buyOrders_insert]

theorem effect_moves {op : QuoteOp β} (hop : op.unpaid) (v : World) :
    ReflTransGen OrdersMove (w.onto v) ((op.effect w).2.onto v) := by
  cases op with
  | create doc => exact create_moves hop v
  | quoteExactOutputSingle _ _ amount _ =>
      simp only [QuoteOp.effect]
      split <;> exact .refl
  | _ => exact .refl

theorem event_moves {e : QuoteEvent} {w' : QuoteWorld} (h : e.occur w = some w') (v : World) :
    ReflTransGen OrdersMove (w.onto v) (w'.onto v) := by
  cases e with
  | wait ms =>
      cases h
      exact .single (.wait ms rfl)
  | market _ | restart =>
      cases h
      exact .refl
  | work filter u =>
      simp only [QuoteEvent.occur] at h
      split at h <;> cases h
      rename_i hu
      have hmove := OrdersMove.work (v := w.onto v)
        (fun o => w.orders.docs.any fun d => d.id == o.id && filter d) u hu
      rw [World.setBuyOrders, QuoteWorld.onto, ← buyOrders_work] at hmove
      exact .single hmove

end Moves

def quoteSteady (ι : Type) (cfg : Config) (policy : QuotePolicy) (root : Except JsError Unit) :
    Steady (quoteApi ι cfg policy root) where
  kept w w' := ∀ v : World, ReflTransGen OrdersMove (w.onto v) (w'.onto v)
  ok _ op := op.unpaid
  permits _ _ _ := True
  refl _ _ := .refl
  trans h h' v := (h v).trans (h' v)
  env he v := event_moves he v
  tasks _ := postQuote_unpaid _ _
  step {β i op out r w w'} hop _ _ hans v := by
    cases out with
    | done =>
        have hw : (op.effect w).2 = w' := congrArg Prod.snd (Option.some.inj hans)
        exact hw ▸ effect_moves hop v
    | fail e =>
        cases hans
        exact .refl
    | lost e =>
        cases hans
        exact effect_moves hop v

/-- A run of the API is, for the service, time that passes, orders that are quoted, and the
work of the service itself. -/
theorem quotes_refine [DecidableEq ι] (cfg : Config) (policy : QuotePolicy)
    (root : Except JsError Unit) {w : QuoteWorld}
    {es : List (Event ApiError ι QuoteRequest QuoteEvent)}
    {q : Pool QuoteOp ApiError QuoteWorld ι}
    (hq : (quoteApi ι cfg policy root).exec (.init w) es = some q) (v : World) :
    ReflTransGen OrdersMove (w.onto v) (q.world.onto v) :=
  (quoteSteady ι cfg policy root).kept_exec ((quoteSteady ι cfg policy root).expected_init w) hq
    ((quoteApi ι cfg policy root).along_of (fun _ _ _ => trivial) _ _) v

theorem two_quotes_seen : ∃ q,
    (quoteApi (Fin 2) Sample.quoteConfig Sample.quotePolicy (.ok ())).exec
      (.init Sample.quoteWorld) Sample.together = some q ∧ q.world.buyOrders.docs.length = 2 ∧
    ReflTransGen OrdersMove (Sample.quoteWorld.onto {}) (q.world.onto {}) := by
  have h : ((quoteApi (Fin 2) Sample.quoteConfig Sample.quotePolicy (.ok ())).exec
      (.init Sample.quoteWorld) Sample.together).map
        (fun q => q.world.buyOrders.docs.length) = some 2 := by
    decide +kernel
  obtain ⟨q, hq, hlength⟩ := Option.map_eq_some_iff.mp h
  exact ⟨q, hq, hlength, quotes_refine Sample.quoteConfig Sample.quotePolicy (.ok ()) hq {}⟩

end FairBridge.BuyQuote

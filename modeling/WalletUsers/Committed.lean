import WalletUsers.Coupons
import WalletUsers.Overflow
import WalletUsers.Sessions
import WalletUsers.Txn.Commits

/-!
# What holds in every committed state

An invariant of the calls that requests make, one at a time, holds in every committed state of every
interleaving of requests, wherever some of them lose the database.  Checks of coupons with a limit are
no exception: their sessions read only.
-/

namespace WalletUsers

open Python Txn

namespace Service

variable {service : Service}

theorem sound_session (service : Service) (a : Arrival) : Sound rowLocks (service.session a) := by
  cases hread : a.request.isRead with
  | true =>
    unfold session
    rw [if_pos hread]
    exact .inr (Prog.raises_discard _)
  | false =>
    refine .inl (guarded_session a fun walletUuid payload hreq => ?_)
    rw [hreq] at hread
    cases hread

/-- What the calls of the requests keep, a session keeps. -/
theorem kept_by_session {I : Store → Prop}
    (hI : ∀ (e : Event) (call : Call) (s : Store),
      service.call e.moment e.ids e.request = .ok (some call) → I s →
        I (postgres.atomically e.now call.prog s).2)
    (a : Arrival) (now : ℕ) {s : Store} (h : I s) :
    I (postgres.atomically now (service.session a) s).2 := by
  rw [(atomically_session service a now s).2]
  rcases handle_snd service (a.event now) s with heq | ⟨call, hcall, heq⟩
  · rwa [heq]
  · rw [heq]
    exact hI _ call s hcall h

variable {ι : Type} [DecidableEq ι] {arrivals : ι → Arrival} {s₀ : Store}
  {c c' : Config Store Stmt Stmt.Res Write Lock ι (Option (Except Err Response)) Response}

/-- What the calls of the requests keep, every interleaving of the requests keeps. -/
theorem invariant_of_steps {I : Store → Prop}
    (hI : ∀ (e : Event) (call : Call) (s : Store),
      service.call e.moment e.ids e.request = .ok (some call) → I s →
        I (postgres.atomically e.now call.prog s).2)
    (hsteps : Steps postgres (service.sessions arrivals) (.initial s₀) c)
    (hsteps' : Steps postgres (service.sessions arrivals) c c') (h : I c.store) : I c'.store :=
  invariant_of_sound (fun i => sound_session service (arrivals i))
    (fun i now _ hs => kept_by_session hI (arrivals i) now hs) hsteps hsteps' h

end Service

/-! ## The books -/

/-- The books are in order: every ledger accounts for the balance of its wallet, no money is lost or
made, and the coupons are counted and within their limits. -/
structure BooksOk (promos : List Promo) (s : Store) : Prop where
  ledgers : LedgersOk s
  money : MoneyInv s
  coupons : CouponsOk promos s

theorem booksOk_empty {promos : List Promo} : BooksOk promos .empty :=
  ⟨ledgersOk_empty, moneyInv_empty, couponsOk_empty⟩

/-- The coupon of a call is the one of its code in the catalogue. -/
theorem Service.promo_of_call {service : Service} {moment : DateTime} {ids : PurchaseIds}
    {request : Request} {call : Call} (h : service.call moment ids request = .ok (some call)) :
    ∀ p ∈ call.promo, findPromo service.promos p.code = some p := by
  cases request with
  | changeBalance | changeStatus | refundPurchase =>
    cases h
    exact fun p hp => by cases hp
  | readBalance | readHistory | checkPurchase => cases h
  | makePurchase walletUuid payload key =>
    obtain ⟨promo, totals, hpriced, heq⟩ := Service.purchase_of_call h
    cases heq
    obtain ⟨hpromo, -, -⟩ := Service.priced_ok hpriced
    exact fun p hp => (Service.resolvePromo_ok hpromo p hp).2.1

/-- **The books stay in order**, from any committed state of any interleaving of requests to any later
one, wherever requests lose the database. -/
theorem books_in_order {ι : Type} [DecidableEq ι] (sha256 : String → String) (arrivals : ι → Arrival)
    {s₀ : Store}
    {c c' : Config Store Stmt Stmt.Res Write Lock ι (Option (Except Err Response)) Response}
    (hsteps : Steps postgres ((deployed sha256).sessions arrivals) (.initial s₀) c)
    (hsteps' : Steps postgres ((deployed sha256).sessions arrivals) c c')
    (h : BooksOk allPromos c.store) : BooksOk allPromos c'.store := by
  refine Service.invariant_of_steps (I := BooksOk allPromos) (fun e call s hcall hs => ?_) hsteps
    hsteps' h
  exact ⟨hs.ledgers.atomically (Service.admissible_of_call hcall), hs.money.atomically (priced_of_call hcall),
    (hs.coupons.atomically e.now (Service.promo_of_call hcall)).1⟩

/-- A deposit, and three purchases that race for what it has paid in: one of them loses the database
when it has made the debit, and of the others one is refused. -/
theorem books_in_order_of_race :
    let amount : Amount := ⟨.ofInt 5, by decide, by decide, by decide⟩
    let cart : PurchaseRequest := { items := [⟨"tea", amount, 1, by decide, by decide⟩],
                                    items_length := by decide, promo_length := by decide }
    let arrivals : Fin 4 → Arrival := fun i => {
      moment := 0, ids := ⟨BitVec.ofNat 128 i, 1, BitVec.ofNat 128 i⟩
      lost := if i = 3 then some 2 else none
      request := if i = 0 then .changeBalance 7 ⟨.deposit, amount⟩ none
        else .makePurchase 7 cart none }
    ∃ c, runSchedule postgres ((deployed id).sessions arrivals) (.initial .empty)
        [0, 0, 0, 0, 0, 0, 3, 1, 2, 3, 3, 3, 1, 1, 1, 1, 1, 2, 2] = some c ∧
      (c.phase 3).outcome.map heard = some none ∧
      (c.phase 2).outcome.bind heard = some (.error (.insufficientFunds 7 500 0)) ∧
      BooksOk allPromos c.store := by
  intro amount cart arrivals
  have hrun : (runSchedule postgres ((deployed id).sessions arrivals) (.initial .empty)
      [0, 0, 0, 0, 0, 0, 3, 1, 2, 3, 3, 3, 1, 1, 1, 1, 1, 2, 2]).any (fun c => decide (
        (c.phase 3).outcome.map heard = some none ∧
        (c.phase 2).outcome.bind heard = some (.error (.insufficientFunds 7 500 0)))) = true := by
    decide +kernel
  obtain ⟨c, hc, hdec⟩ := (Option.any_eq_true _ _).mp hrun
  obtain ⟨hlost, hrefused⟩ := of_decide_eq_true hdec
  exact ⟨c, hc, hlost, hrefused,
    books_in_order id arrivals .refl (steps_of_runSchedule hc) booksOk_empty⟩

end WalletUsers

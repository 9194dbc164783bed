import WalletUsers.Columns.Operations

/-!
# The decimals refine the cents

The endpoints that compute in decimals, round to the columns and keep JSON text do what the endpoints
of `WalletUsers.Api` do in cents.  However the statements of concurrent requests interleave, and
wherever some of them lose the database, the same schedules go through on both levels; the tables that
they lead to read as the store, and the answers have the same amounts (`decimals_refine_cents`).
-/

namespace WalletUsers.Columns

open Python Txn Abstraction

variable {service : Service} {now : ℕ} {P : List Change}

/-- The answer says what the response in cents says. -/
inductive Says : Answer → Response → Prop
  | result {walletUuid record} (h : record.Exact) :
      Says (.result walletUuid record) (.result walletUuid record.payload)
  | status {walletUuid status} : Says (.status walletUuid status) (.result walletUuid (.status status))
  | check {quote} : Says (.check quote) (.check quote)
  | history {walletUuid operations} :
      Says (.history walletUuid operations) (.history walletUuid operations)

/-- A dict of the endpoint is validated. -/
theorem Replays.says {e : Endpoint} {dict : Json} {payload : Payload} (h : Replays e dict payload)
    (walletUuid : UUID) : Says (.ofDict walletUuid e dict) (.result walletUuid payload) := by
  obtain ⟨r, hread, hexact, rfl⟩ := h
  rw [Answer.ofDict, hread]
  exact .result hexact

/-! ## The price of a cart -/

theorem isCents_of_toCents {d d' : Decimal} (h : toCents d = some d') : d'.IsCents := by
  have hexp : d'.exp = -2 := by
    unfold toCents Decimal.quantize at h
    dsimp only at h
    split_ifs at h <;> cases h <;> rfl
  intro hlt
  rw [hexp] at hlt
  exact absurd hlt (lt_irrefl _)

theorem isCents_of_computeDiscount {subtotal discount : Decimal} {promo : Promo}
    (h : computeDiscount subtotal promo = .ok discount) (hsub : subtotal.IsCents) :
    discount.IsCents := by
  rw [computeDiscount_eq] at h
  split_ifs at h
  rcases hraw : rawDiscount subtotal promo with _ | raw <;> rw [hraw] at h <;> cases h
  have hcents : raw.IsCents := by
    unfold rawDiscount at hraw
    split at hraw <;> exact isCents_of_toCents hraw
  split_ifs
  · exact hsub
  · exact hcents

theorem priced_of_priceCart {subtotal : Decimal} {promo : Option Promo} {totals : CartTotals}
    (h : priceCart subtotal promo = .ok totals) (hsub : subtotal.IsCents) (hpos : 0 ≤ subtotal.coef) :
    Priced totals := by
  have hnonneg := Decimal.cents_nonneg (priceCart_total_nonneg h hpos)
  rcases promo with _ | promo
  · cases h
    exact ⟨hsub, fun hlt => absurd hlt (by decide : ¬(-2 : ℤ) < -2), hsub, hnonneg⟩
  unfold priceCart at h
  dsimp only at h
  rcases hd : computeDiscount subtotal promo with err | discount <;> rw [hd] at h
  · cases h
  rcases ht : toCents (subtotal - discount) with _ | total
  · simp [ht, orInvalid, bind, Except.bind] at h
  simp only [ht, orInvalid, bind, Except.bind, pure, Except.pure, Except.ok.injEq] at h
  subst h
  exact ⟨hsub, isCents_of_computeDiscount hd hsub, isCents_of_toCents ht, hnonneg⟩

/-! ## Endpoints -/

theorem implements_orRaise {α β β' : Type} {Q : β → β' → List Change → Prop} (x : Except Err α)
    {f : α → Tx β} {f' : α → WalletUsers.Tx β'}
    (hf : ∀ a, x = .ok a → reading.Implements Reports now (f a) (f' a) P Q) :
    reading.Implements Reports now (orRaise x >>= f) (WalletUsers.orRaise x >>= f') P Q := by
  rcases x with err | a
  · exact ⟨_, rfl, reports_of err⟩
  · exact hf a rfl

theorem implements_makePurchase (moment : DateTime) (walletUuid : UUID) (payload : PurchaseRequest)
    (key : Option String) (ids : PurchaseIds) :
    reading.Implements Reports now (makePurchase service moment walletUuid payload key ids)
      (service.makePurchase moment walletUuid payload key ids) [] fun a r _ => Says a r := by
  refine implements_orRaise _ fun promo _ => implements_orRaise _ fun subtotal hsubtotal =>
    implements_orRaise _ fun totals htotals => implements_orRaise _ fun _ _ => ?_
  rw [payload.subtotal_eq] at hsubtotal
  cases hsubtotal
  have hpriced := priced_of_priceCart htotals (Decimal.isCents_ofCents _) payload.cents_pos.le
  refine (implements_purchase hpriced walletUuid promo _ key _ ids).bind fun dict payload _ h => ?_
  exact ⟨_, rfl, h.says walletUuid⟩

theorem implements_checkPurchase (moment : DateTime) (walletUuid : UUID) (payload : PurchaseRequest) :
    reading.Implements Reports now (checkPurchase service moment walletUuid payload)
      (service.checkPurchase moment walletUuid payload) [] fun a r _ => Says a r := by
  have hclaim : Claimed none .operation [] := fun k hk => by cases hk
  refine implements_orRaise _ fun promo _ => ?_
  refine (implements_lift (bare_validateCouponIfAny promo walletUuid) hclaim).bind
    fun uses uses' P₁ ⟨huses, hP₁⟩ => ?_
  subst huses
  refine implements_orRaise _ fun subtotal _ => implements_orRaise _ fun totals _ => ?_
  refine (implements_getBalance walletUuid hP₁).bind fun d n _ hd => ?_
  subst hd
  exact ⟨_, rfl, .check⟩

/-- Every endpoint implements the one in cents. -/
theorem implements_endpoint (moment : DateTime) (ids : PurchaseIds) (request : Request) :
    reading.Implements Reports now (endpoint service moment ids request)
      (service.endpoint moment ids request) [] fun a r _ => Says a r := by
  have hclaim : Claimed none .operation [] := fun k hk => by cases hk
  cases request with
  | changeBalance walletUuid payload key =>
    refine (implements_performOperation walletUuid _ payload.amount key _ _).bind fun _ _ _ h => ?_
    exact ⟨_, rfl, h.says walletUuid⟩
  | readBalance walletUuid =>
    refine (implements_getBalance walletUuid hclaim).bind fun d n _ hd => ?_
    subst hd
    have hexact : (Record.balance (.ofCents n)).Exact :=
      List.forall_mem_singleton.mpr (Decimal.isCents_ofCents n)
    have hcents : (Record.balance (.ofCents n)).payload = .balance n := by simp [Record.payload]
    exact ⟨_, rfl, hcents ▸ Says.result hexact⟩
  | readHistory walletUuid limit offset =>
    refine (implements_lift (bare_listOperations walletUuid limit offset) hclaim).bind
      fun rows rows' _ ⟨hrows, _⟩ => ?_
    subst hrows
    exact implements_orRaise _ fun _ _ => ⟨_, rfl, .history⟩
  | changeStatus walletUuid status =>
    refine (implements_setStatus walletUuid status).bind fun status payload _ h => ?_
    subst h
    exact ⟨_, rfl, .status⟩
  | makePurchase walletUuid payload key => exact implements_makePurchase moment walletUuid payload key ids
  | checkPurchase walletUuid payload => exact implements_checkPurchase moment walletUuid payload
  | refundPurchase walletUuid purchaseId payload key =>
    refine Implements.bind ?_ fun _ _ _ h => ⟨_, rfl, Replays.says h walletUuid⟩
    exact implements_refund walletUuid purchaseId (payload.bind (·.amount)) key _ _

/-! ## Runs -/

theorem implements_sessions {ι : Type} (service : Service) (arrivals : ι → Arrival) (i : ι) (now : ℕ) :
    reading.Implements (Option.Rel (EndsAs Says Reports)) now (sessions service arrivals i)
      (service.sessions arrivals i) [] fun a r _ => Says a r := by
  refine Implements.cut ?_ _
  unfold session Service.session
  have hendpoint : reading.Implements Reports now
      (endpoint service (arrivals i).moment (arrivals i).ids (arrivals i).request)
      (service.endpoint (arrivals i).moment (arrivals i).ids (arrivals i).request) []
      fun a r _ => Says a r := implements_endpoint _ _ _
  dsimp only
  split_ifs
  · exact hendpoint.discard
  · exact hendpoint.attempt

/-- **Refinement.**  The endpoints in decimals, on text columns, go through the schedules that those in
cents go through, with the same waiting, to tables that read as the store and answers that say the
same. -/
theorem decimals_refine_cents {ι : Type} [DecidableEq ι] (service : Service)
    (arrivals : ι → Arrival) {t₀ : Tables} (h : t₀.Legible) (schedule : List ι) :
    Option.Rel (reading.Represents (Option.Rel (EndsAs Says Reports)) Says)
      (runSchedule columns (sessions service arrivals) (.initial t₀) schedule)
      (runSchedule postgres (service.sessions arrivals) (.initial t₀.read) schedule) :=
  Represents.runSchedule (implements_sessions service arrivals) (represents_initial h) schedule

/-- A deposit under a key, and its retry, which is answered from the text that has been kept. -/
theorem decimals_refine_cents_of_retry :
    let amount : Amount := ⟨⟨50, -1⟩, by decide, by decide, by decide⟩
    let arrivals : Fin 2 → Arrival := fun i => {
      moment := 0, ids := ⟨BitVec.ofNat 128 i, 1, BitVec.ofNat 128 i⟩
      request := .changeBalance 7 ⟨.deposit, amount⟩ (some "k") }
    ∃ c d, runSchedule columns (sessions (deployed id) arrivals) (.initial .empty)
        [0, 0, 1, 0, 0, 0, 0, 0, 0, 0, 1, 1, 1] = some c ∧
      runSchedule postgres ((deployed id).sessions arrivals) (.initial .empty)
        [0, 0, 1, 0, 0, 0, 0, 0, 0, 0, 1, 1, 1] = some d ∧
      (c.phase 1).outcome.bind heard = some (.ok (.result 7 (.balance ⟨50, -1⟩))) ∧
      reading.Represents (Option.Rel (EndsAs Says Reports)) Says c d := by
  intro amount arrivals
  have hrun : (runSchedule columns (sessions (deployed id) arrivals) (.initial .empty)
      [0, 0, 1, 0, 0, 0, 0, 0, 0, 0, 1, 1, 1]).any (fun c => decide (
        (c.phase 1).outcome.bind heard = some (.ok (.result 7 (.balance ⟨50, -1⟩))))) = true := by
    decide +kernel
  obtain ⟨c, hc, hdec⟩ := (Option.any_eq_true _ _).mp hrun
  have hrel := decimals_refine_cents (deployed id) arrivals Tables.legible_empty
    [0, 0, 1, 0, 0, 0, 0, 0, 0, 0, 1, 1, 1]
  rw [hc] at hrel
  cases hd : runSchedule postgres ((deployed id).sessions arrivals) (.initial .empty)
      [0, 0, 1, 0, 0, 0, 0, 0, 0, 0, 1, 1, 1] with
  | none =>
    rw [Tables.read_empty, hd] at hrel
    cases hrel
  | some d =>
    rw [Tables.read_empty, hd] at hrel
    cases hrel with
    | some h => exact ⟨c, d, hc, rfl, of_decide_eq_true hdec, h⟩

end WalletUsers.Columns

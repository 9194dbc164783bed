import WalletUsers.Columns.Refinement
import WalletUsers.Extension

/-!
# The audit of the charges

A purchase keeps a snapshot of its cart, as JSON text with the prices as strings.  What was charged can
be computed again from it: in every state that is reached, however the requests interleave, every
purchase has the subtotal, the discount and the total that the positions in its own text come to with
the coupon of its code (`charges_audited`).
-/

namespace WalletUsers.Columns

open Python Txn Abstraction

/-! ## Pricing a snapshot -/

/-- The value of a position, from its strings. -/
def lineSubtotal (line : CartLine) : Option Decimal := do
  let price ← Decimal.ofString line.price
  toCents (price * Decimal.ofInt line.quantity)

def sumLines (sum : Decimal) : List CartLine → Option Decimal
  | [] => some sum
  | line :: lines => (lineSubtotal line).bind fun x => sumLines (sum + x) lines

/-- What the positions of a snapshot come to with the coupon of a code. -/
def reprice (promos : List Promo) (promoCode : Option String) (lines : List CartLine) :
    Option CartTotals := do
  let promo ← promoCode.elim (some none) fun code => (findPromo promos code).map some
  let sum ← sumLines (Decimal.ofInt 0) lines
  let subtotal ← toCents sum
  (priceCart subtotal promo).toOption

/-- What was charged is what the positions come to. -/
structure Audited (promos : List Promo) (p : Purchase) : Prop where
  positions : p.items ≠ []
  charged : ∃ totals, reprice promos p.promoCode p.items = some totals ∧
    p.subtotal = numeric totals.subtotal ∧ p.discount = numeric totals.discount ∧
    p.total = numeric totals.total

/-- The snapshot of a row can be read, and was charged. -/
structure PurchaseRow.Audited (promos : List Promo) (row : PurchaseRow) : Prop where
  legible : ∃ lines, readLines row.items.value = some lines
  audited : Columns.Audited promos row.read

theorem PurchaseRow.audited_iff {promos : List Promo} {row : PurchaseRow} :
    row.Audited promos ↔ Columns.Audited promos row.read := by
  refine ⟨fun h => h.audited, fun h => ⟨Option.ne_none_iff_exists'.mp fun hread => ?_, h⟩⟩
  have hnil : row.read.items = [] := by simp [PurchaseRow.read, hread]
  exact h.positions hnil

/-! ## What is charged -/

theorem lineSubtotal_line (item : PurchaseItem) : lineSubtotal item.line = item.subtotal := by
  have hprice : Decimal.ofString item.line.price = some item.price.value := Decimal.ofString_str _
  unfold lineSubtotal
  rw [hprice]
  rfl

theorem sumLines_map (sum : Decimal) (items : List PurchaseItem) :
    sumLines sum (items.map PurchaseItem.line) = sumSubtotals sum items := by
  induction items generalizing sum with
  | nil => rfl
  | cons item items ih =>
    rw [List.map_cons, sumLines, lineSubtotal_line, sumSubtotals]
    exact congrArg _ (funext fun x => ih (sum + x))

/-- The cart of a request comes to what the request is priced at. -/
theorem reprice_of_priced {service : Service} {moment : DateTime} {payload : PurchaseRequest}
    {promo : Option Promo} {totals : CartTotals}
    (h : service.priced moment payload = .ok (promo, totals)) :
    reprice service.promos (promo.map (·.code)) (payload.items.map PurchaseItem.line) =
      some totals := by
  obtain ⟨hpromo, hprice, -⟩ := Service.priced_ok h
  have hcode : (promo.map (·.code)).elim (some none)
      (fun code => (findPromo service.promos code).map some) = some promo := by
    rcases promo with _ | p
    · rfl
    · have hfind := (Service.resolvePromo_ok hpromo p rfl).2.1
      simp [hfind]
  have hsubtotal : (sumSubtotals (Decimal.ofInt 0) payload.items).bind toCents =
      some (Decimal.ofCents payload.cents) := by
    have hsub := payload.subtotal_eq
    unfold PurchaseRequest.subtotal at hsub
    revert hsub
    generalize (sumSubtotals (Decimal.ofInt 0) payload.items).bind toCents = subtotal
    intro hsub
    cases subtotal with
    | none => cases hsub
    | some subtotal => exact congrArg some (Except.ok.inj hsub)
  unfold reprice
  rw [hcode, sumLines_map]
  show (sumSubtotals _ payload.items).bind (fun sum => (toCents sum).bind _) = _
  rw [← Option.bind_assoc, hsubtotal, Option.bind_some, hprice]
  rfl

theorem audited_purchaseRow {service : Service} {moment : DateTime} {payload : PurchaseRequest}
    {promo : Option Promo} {totals : CartTotals}
    (h : service.priced moment payload = .ok (promo, totals)) (walletId id : UUID) :
    Audited service.promos (purchaseRow walletId totals.charge promo
      (payload.items.map PurchaseItem.line) id) := by
  obtain ⟨-, hprice, -⟩ := Service.priced_ok h
  have hpriced := priced_of_priceCart hprice (Decimal.isCents_ofCents _) payload.cents_pos.le
  refine ⟨fun hnil => ?_, totals, reprice_of_priced h, ?_, ?_, ?_⟩
  · have hlen := payload.items_length.1
    rw [List.map_eq_nil_iff.mp hnil] at hlen
    exact absurd hlen (by decide)
  · exact (numeric_eq_cents hpriced.subtotal).symm
  · exact (numeric_eq_cents hpriced.discount).symm
  · exact (numeric_eq_cents hpriced.total).symm

/-! ## Runs -/

/-- A refund leaves a charge as it is. -/
theorem Audited.putPurchase {promos : List Promo} {s : Store} {record : Purchase} {n : ℤ}
    (h : ∀ p ∈ s.purchases, Audited promos p) (hrecord : record ∈ s.purchases) :
    ∀ p ∈ (s.apply (.putPurchase { record with refundedTotal := n })).purchases,
      Audited promos p := by
  intro p hp
  obtain ⟨q, hq, rfl⟩ := List.mem_map.mp hp
  split_ifs
  · exact ⟨(h record hrecord).positions, (h record hrecord).charged⟩
  · exact h q hq

/-- A call of a request keeps the audit. -/
theorem audited_atomically {service : Service} {e : Event} {call : Call} {s : Store}
    (hcall : service.call e.moment e.ids e.request = .ok (some call))
    (h : ∀ p ∈ s.purchases, Audited service.promos p) :
    ∀ p ∈ (postgres.atomically e.now call.prog s).2.purchases, Audited service.promos p := by
  refine invariant_of_plans (I := fun s => ∀ p ∈ s.purchases, Audited service.promos p)
    (fun _ _ hs => hs) (fun {payload ws s₁} hplan hwrite => ?_) h
  have hs₁ := writeAll_ok hwrite
  cases hplan with
  | deposit | withdraw | setStatus =>
    subst hs₁
    exact h
  | refund record wallet requested hfind =>
    subst hs₁
    exact Audited.putPurchase h (List.mem_of_find?_eq_some hfind)
  | @purchase walletId charge promo items key hash ids claimed wallet hcoupon =>
    rw [(tables_of_purchase hcoupon hs₁).2.1]
    refine List.forall_mem_append.mpr ⟨h, List.forall_mem_singleton.mpr ?_⟩
    rcases e with ⟨moment, now, ids', request⟩
    cases request with
    | changeBalance | changeStatus | refundPurchase => cases hcall
    | readBalance | readHistory | checkPurchase => cases hcall
    | makePurchase walletUuid payload key' =>
      obtain ⟨promo', totals, hpriced, heq⟩ := Service.purchase_of_call hcall
      cases heq
      exact audited_purchaseRow hpriced _ _

/-- **Audit.**  However the requests interleave, and wherever they lose the database, every purchase
was charged what the text of its own snapshot comes to. -/
theorem charges_audited {ι : Type} [DecidableEq ι] (service : Service) (arrivals : ι → Arrival)
    {t₀ : Tables} (hlegible : t₀.Legible) (h : ∀ row ∈ t₀.purchases, row.Audited service.promos)
    {c : Config Tables Sql Sql.Res Change Lock ι (Option (Except Error Answer)) Answer}
    (hsteps : Steps columns (sessions service arrivals) (.initial t₀) c) :
    ∀ row ∈ c.store.purchases, row.Audited service.promos := by
  obtain ⟨d, hd, hrep⟩ := (represents_initial hlegible).steps
    (implements_sessions service arrivals) hsteps
  have hread : ∀ p ∈ t₀.read.purchases, Audited service.promos p := fun p hp => by
    obtain ⟨row, hrow, rfl⟩ := List.mem_map.mp hp
    exact (h row hrow).audited
  have hall := Service.invariant_of_steps
    (I := fun s => ∀ p ∈ s.purchases, Audited service.promos p)
    (fun e call s hcall hs => audited_atomically hcall hs) .refl hd hread
  intro row hrow
  rw [hrep.store] at hall
  exact PurchaseRow.audited_iff.mpr (hall row.read (List.mem_map_of_mem hrow))

/-- A cart with a coupon, bought and refunded: the discount is in the row, and its snapshot comes
to it. -/
theorem charges_audited_of_coupon :
    let amount : Amount := ⟨⟨105, -1⟩, by decide, by decide, by decide⟩
    let cart : PurchaseRequest := { items := [⟨"tea", amount, 2, by decide, by decide⟩]
                                    promoCode := some "half"
                                    items_length := by decide, promo_length := by decide }
    let arrivals : Fin 3 → Arrival := fun i => {
      moment := 0, ids := ⟨1, 1, i.val⟩
      request := if i = 0 then .changeBalance 7 ⟨.deposit, amount⟩ none
        else if i = 1 then .makePurchase 7 cart none else .refundPurchase 7 1 none none }
    let snapshot := "[\x7b\"name\": \"tea\", \"price\": \"10.5\", \"quantity\": 2\x7d]"
    ∃ c, runSchedule columns (sessions (deployed id) arrivals) (.initial .empty)
        ([0, 0, 0, 0, 0, 0] ++ List.replicate 10 1 ++ List.replicate 7 2) = some c ∧
      (c.store.purchases.map fun row =>
        (row.items.text, row.promoCode, row.subtotal, row.discount, row.total, row.refundedTotal)) =
          [(snapshot, some "HALF", 2100, 1050, 1050, 1050)] ∧
      ∀ row ∈ c.store.purchases, row.Audited allPromos := by
  intro amount cart arrivals snapshot
  have hrun : (runSchedule columns (sessions (deployed id) arrivals) (.initial .empty)
      ([0, 0, 0, 0, 0, 0] ++ List.replicate 10 1 ++ List.replicate 7 2)).any (fun c => decide (
        (c.store.purchases.map fun row =>
          (row.items.text, row.promoCode, row.subtotal, row.discount, row.total, row.refundedTotal)) =
            [(snapshot, some "HALF", 2100, 1050, 1050, 1050)])) = true := by decide +kernel
  obtain ⟨c, hc, hdec⟩ := (Option.any_eq_true _ _).mp hrun
  exact ⟨c, hc, of_decide_eq_true hdec, charges_audited (deployed id) arrivals Tables.legible_empty
    (fun row hrow => absurd hrow List.not_mem_nil) (steps_of_runSchedule hc)⟩

end WalletUsers.Columns

import WalletUsers.Fingerprint
import WalletUsers.Api

/-!
# Spellings

One amount can be written in many ways: `10`, `10.0` and `1E+1` are decimals with the same number of
cents and different exponents.  A refund of everything comes without a body, or with one that has no
amount.  What a body says is its `content`; how it says it is its `spelling`, and the two make up the
whole body.  The text of a body keeps the spelling, and so does its hash: two bodies that say the same
have the same hash exactly when they are spelled alike.
-/

namespace WalletUsers

open Python

theorem Amount.eq_of_cents {a b : Amount} (hcents : a.cents = b.cents)
    (hexp : a.value.exp = b.value.exp) : a = b := by
  have hvalue : a.value.toRat = b.value.toRat := by
    rw [Decimal.toRat_eq_cents a.isCents, Decimal.toRat_eq_cents b.isCents]
    exact congrArg (fun n : ℤ => (n : ℚ) * 10 ^ (-2 : ℤ)) hcents
  unfold Decimal.toRat at hvalue
  rw [hexp] at hvalue
  have hcoef : (a.value.coef : ℚ) = b.value.coef :=
    mul_right_cancel₀ (zpow_ne_zero _ (by norm_num)) hvalue
  apply Amount.ext_value
  exact Decimal.mk.injEq .. |>.mpr ⟨Int.cast_injective hcoef, hexp⟩

theorem Amount.eq_of_map_cents {a b : Option Amount} (hcents : a.map Amount.cents = b.map Amount.cents)
    (hexp : a.map (·.value.exp) = b.map (·.value.exp)) : a = b := by
  cases a with
  | none =>
    cases b with
    | none => rfl
    | some b => cases hcents
  | some a =>
    cases b with
    | none => cases hcents
    | some b => rw [Amount.eq_of_cents (Option.some.inj hcents) (Option.some.inj hexp)]

theorem PurchaseItem.eq_of_content {p q : PurchaseItem} (hname : p.name = q.name)
    (hquantity : p.quantity = q.quantity) (hprice : p.price = q.price) : p = q := by
  cases p
  cases q
  cases hname
  cases hquantity
  cases hprice
  rfl

theorem PurchaseItem.eq_of_map_content : ∀ {items items' : List PurchaseItem},
    (items.map fun i => (i.name, i.price.cents, i.quantity)) =
      (items'.map fun i => (i.name, i.price.cents, i.quantity)) →
    (items.map fun i => i.price.value.exp) = (items'.map fun i => i.price.value.exp) →
    items = items'
  | [], [], _, _ => rfl
  | [], _ :: _, h, _ => nomatch h
  | _ :: _, [], h, _ => nomatch h
  | p :: items, q :: items', hcontent, hexp => by
    obtain ⟨hpq, hrest⟩ := List.cons.inj hcontent
    obtain ⟨hprice, hexps⟩ := List.cons.inj hexp
    obtain ⟨hname, hcents, hquantity⟩ : p.name = q.name ∧ p.price.cents = q.price.cents ∧
        p.quantity = q.quantity := by simpa using hpq
    rw [eq_of_content hname hquantity (Amount.eq_of_cents hcents hprice),
      eq_of_map_content hrest hexps]

/-- How a body is written: the exponents of its amounts, and whether there is a body at all. -/
inductive Spelling
  | operation (amount : ℤ)
  | purchase (prices : List ℤ) (expectedTotal : Option ℤ)
  | refund (body : Option (Option ℤ))
deriving DecidableEq

namespace Body

/-- Two bodies that say the same are the same when these are. -/
def spelling : Body → Spelling
  | operation payload => .operation payload.amount.value.exp
  | purchase payload => .purchase (payload.items.map fun i => i.price.value.exp)
      (payload.expectedTotal.map (·.value.exp))
  | refund payload => .refund (payload.map fun p => p.amount.map (·.value.exp))

theorem eq_of_operation {p q : OperationRequest}
    (hcontent : (operation p).content = (operation q).content)
    (hspelling : (operation p).spelling = (operation q).spelling) : p = q := by
  obtain ⟨htype, hcents⟩ := Content.operation.inj hcontent
  have hamount := Amount.eq_of_cents hcents (Spelling.operation.inj hspelling)
  cases p
  cases q
  cases htype
  cases hamount
  rfl

theorem eq_of_purchase {p q : PurchaseRequest} (hcontent : (purchase p).content = (purchase q).content)
    (hspelling : (purchase p).spelling = (purchase q).spelling) : p = q := by
  obtain ⟨hitems, hpromo, hexpected⟩ := Content.purchase.inj hcontent
  obtain ⟨hprices, htotal⟩ := Spelling.purchase.inj hspelling
  have hitems := PurchaseItem.eq_of_map_content hitems hprices
  have hexpected := Amount.eq_of_map_cents hexpected htotal
  cases p
  cases q
  cases hitems
  cases hpromo
  cases hexpected
  rfl

theorem eq_of_refund {p q : Option RefundRequest} (hcontent : (refund p).content = (refund q).content)
    (hspelling : (refund p).spelling = (refund q).spelling) : p = q := by
  have hamounts := Content.refund.inj hcontent
  have hbodies := Spelling.refund.inj hspelling
  cases p with
  | none =>
    cases q with
    | none => rfl
    | some q => cases hbodies
  | some p =>
    cases q with
    | none => cases hbodies
    | some q =>
      have hamount := Amount.eq_of_map_cents hamounts (Option.some.inj hbodies)
      cases p
      cases q
      cases hamount
      rfl

/-- A body is what it says and how it says it. -/
theorem eq_iff {b b' : Body} (hendpoint : b.endpoint = b'.endpoint) :
    b = b' ↔ b.content = b'.content ∧ b.spelling = b'.spelling := by
  constructor
  · rintro rfl
    exact ⟨rfl, rfl⟩
  · rintro ⟨hcontent, hspelling⟩
    cases b <;> cases b' <;> cases hendpoint
    · exact congrArg operation (eq_of_operation hcontent hspelling)
    · exact congrArg purchase (eq_of_purchase hcontent hspelling)
    · exact congrArg refund (eq_of_refund hcontent hspelling)

end Body

namespace Service

/-- The hash function tells the texts of two bodies apart. -/
def NoCollision (service : Service) (b b' : Body) : Prop :=
  service.sha256 b.dump.dumps = service.sha256 b'.dump.dumps → b.dump.dumps = b'.dump.dumps

theorem fingerprint_eq_iff {service : Service} {b b' : Body} (hendpoint : b.endpoint = b'.endpoint)
    (hsha : service.NoCollision b b') :
    service.fingerprint b.dump = service.fingerprint b'.dump ↔ b = b' :=
  ⟨fun h => Body.dump_inj hendpoint (hsha h), fun h => h ▸ rfl⟩

/-- The hashes of two bodies are equal exactly if the bodies say the same. -/
def Identifies (service : Service) (b b' : Body) : Prop :=
  service.fingerprint b.dump = service.fingerprint b'.dump ↔ b.content = b'.content

/-- The hash identifies two bodies unless they say the same and are spelled differently. -/
theorem identifies_iff (service : Service) (b b' : Body) (hendpoint : b.endpoint = b'.endpoint)
    (hsha : service.NoCollision b b') :
    service.Identifies b b' ↔ (b.content = b'.content → b.spelling = b'.spelling) := by
  have hhash := fingerprint_eq_iff hendpoint hsha
  rw [Body.eq_iff hendpoint] at hhash
  constructor
  · intro h hcontent
    exact (hhash.mp (h.mpr hcontent)).2
  · intro h
    exact ⟨fun heq => (hhash.mp heq).1, fun hcontent => hhash.mpr ⟨hcontent, h hcontent⟩⟩

/-- A deposit of `2.50` and one of `2.6`. -/
theorem identifies_of_other_amount :
    let p : OperationRequest := ⟨.deposit, ⟨⟨250, -2⟩, by decide, by decide, by decide⟩⟩
    let q : OperationRequest := ⟨.deposit, ⟨⟨26, -1⟩, by decide, by decide, by decide⟩⟩
    (deployed id).Identifies (.operation p) (.operation q) := by
  intro p q
  exact (identifies_iff (deployed id) (.operation p) (.operation q) rfl fun h => h).mpr
    fun h => absurd h (by decide)

/-- The deposit of `10` and that of `10.00` have different hashes, and so have a refund without a body
and one with an empty object, whatever the hash function, if it tells the texts apart. -/
theorem spelling_changes_hash :
    ∃ (p q : OperationRequest) (r : RefundRequest),
      p.amount.value = ⟨10, 0⟩ ∧ q.amount.value = ⟨1000, -2⟩ ∧ r.amount = none ∧
      (Body.operation p).content = (Body.operation q).content ∧
      (Body.refund none).content = (Body.refund (some r)).content ∧
      ∀ service : Service,
        (service.NoCollision (.operation p) (.operation q) →
          ¬service.Identifies (.operation p) (.operation q)) ∧
        (service.NoCollision (.refund none) (.refund (some r)) →
          ¬service.Identifies (.refund none) (.refund (some r))) := by
  let p : OperationRequest := ⟨.deposit, ⟨⟨10, 0⟩, by decide, by decide, by decide⟩⟩
  let q : OperationRequest := ⟨.deposit, ⟨⟨1000, -2⟩, by decide, by decide, by decide⟩⟩
  have hdeposits : (Body.operation p).content = (Body.operation q).content := by decide
  have hrefunds : (Body.refund none).content = (Body.refund (some ⟨none⟩)).content := by decide
  have hamounts : Body.operation p ≠ Body.operation q := by decide
  have hbodies : Body.refund none ≠ Body.refund (some ⟨none⟩) := by decide
  refine ⟨p, q, ⟨none⟩, rfl, rfl, rfl, hdeposits, hrefunds, fun service => ⟨?_, ?_⟩⟩
  · intro hsha h
    exact hamounts ((fingerprint_eq_iff (by rfl) hsha).mp (h.mpr hdeposits))
  · intro hsha h
    exact hbodies ((fingerprint_eq_iff (by rfl) hsha).mp (h.mpr hrefunds))

end Service

end WalletUsers

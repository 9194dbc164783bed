import WalletUsers.Errors
import WalletUsers.Python.FString

/-!
# Exceptions, with their texts

The exceptions of the endpoints that compute in decimals, the text that each one is made with, and what
the client is told: the handlers of the application answer with a status code and the text.
-/

namespace WalletUsers

open Python

/-- The reason that a coupon is outside its window. -/
def WindowReason.message : WindowReason → List Field
  | .notValidUntil day => [.lit " is not valid until ", .val (.day day)]
  | .expiredOn day => [.lit " expired on ", .val (.day day)]

namespace Columns

/-- The exception carries no amount of a column. -/
def amountFree : Err → Bool
  | .insufficientFunds .. | .refundNotAllowed .. | .balanceLimit .. => false
  | _ => true

inductive Error
  | insufficientFunds (walletId : UUID) (required available : Decimal)
  | refundNotAllowed (purchaseId : UUID) (requested remaining : Decimal)
  | balanceLimit (walletId : UUID) (attempted : Decimal)
  | plain (err : Err) (h : amountFree err = true)
deriving DecidableEq, Repr

/-- An exception of the rules that do not involve the columns. -/
def Error.of : Err → Error
  | .insufficientFunds walletId required available =>
    .insufficientFunds walletId (.ofCents required) (.ofCents available)
  | .refundNotAllowed purchaseId requested remaining =>
    .refundNotAllowed purchaseId (.ofCents requested) (.ofCents remaining)
  | .balanceLimit walletId attempted => .balanceLimit walletId (.ofCents attempted)
  | err => if h : amountFree err = true then .plain err h else .plain .invalidOperation rfl

/-! ## Texts -/

/-- The message of an exception that carries no amount of a column.  One without a handler is not told. -/
def plainMessage : Err → Option (List Field)
  | .walletNotFound walletId => some [.lit "Wallet ", .val (.uuid walletId), .lit " not found"]
  | .totalMismatch expected actual => some [.lit "Total mismatch: client expected ",
      .val (.decimal expected), .lit ", server computed ", .val (.decimal actual)]
  | .purchaseNotFound purchaseId =>
    some [.lit "Purchase ", .val (.uuid purchaseId), .lit " not found"]
  | .walletFrozen walletId =>
    some [.lit "Wallet ", .val (.uuid walletId), .lit " is frozen and cannot be spent from"]
  | .idempotencyConflict key => some [.lit "Idempotency key ", .val (.quoted key),
      .lit " was already used for a different request"]
  | .idempotencyInProgress key => some [.lit "A request with idempotency key ", .val (.quoted key),
      .lit " is still in progress"]
  | .unknownPromoCode code => some [.lit "Unknown promo code ", .val (.quoted code)]
  | .promoNotApplicable code minTotal subtotal => some [.lit "Promo code ", .val (.quoted code),
      .lit " requires a subtotal of at least ", .val (.decimal minTotal),
      .lit ", cart subtotal is ", .val (.decimal subtotal)]
  | .couponWindow code reason => some ([.lit "Promo code ", .val (.quoted code)] ++ reason.message)
  | .couponLimitReached code maxUses => some [.lit "Promo code ", .val (.quoted code),
      .lit " has reached its limit of ", .val (.int maxUses), .lit " use(s)"]
  | .couponAlreadyUsed code maxPerWallet => some [.lit "Promo code ", .val (.quoted code),
      .lit " is limited to ", .val (.int (some maxPerWallet)),
      .lit " use(s) per wallet and has already been used"]
  | _ => none

/-- The message of an exception for which there is a handler. -/
def Error.message : Error → Option (List Field)
  | insufficientFunds walletId required available =>
    some [.lit "Insufficient funds on wallet ", .val (.uuid walletId),
      .lit ": required ", .val (.decimal required), .lit ", available ", .val (.decimal available),
      .lit ", short by ", .val (.decimal (required - available))]
  | refundNotAllowed purchaseId requested remaining =>
    some ([.lit "Cannot refund ", .val (.decimal requested), .lit " of purchase ",
      .val (.uuid purchaseId)] ++
      if ¬Decimal.ofInt 0 < remaining then [.lit ": nothing is left to refund"]
      else [.lit ": only ", .val (.decimal remaining), .lit " is left to refund"])
  | balanceLimit walletId attempted =>
    some [.lit "Balance limit exceeded on wallet ", .val (.uuid walletId), .lit ": ",
      .val (.decimal attempted), .lit " is above the maximum ",
      .val (.decimal (.ofCents maxBalance))]
  | plain err _ => plainMessage err

/-! ## Answers -/

/-- The status code of the answer. -/
def Error.statusCode : Error → ℕ
  | insufficientFunds .. => 400
  | refundNotAllowed .. => 409
  | balanceLimit .. => 400
  | plain err _ => err.statusCode

/-- An answer with an error: its status code, and the `detail` of its body where a handler has made it. -/
structure Refusal where
  status : ℕ
  detail : Option String
deriving DecidableEq, Repr

/-- What the client is told of an exception. -/
def Error.refusal (printable : Char → Bool) (e : Error) : Refusal :=
  ⟨e.statusCode, e.message.map fun fields => String.ofList (render printable fields)⟩

/-- What the client is told where the database is lost. -/
def unavailable : Refusal := ⟨503, some "Database is unavailable, please retry"⟩

/-! ## What the client can tell -/

/-- The shapes of the messages. -/
def shapes : List (List Shape) := [
  [.lit "Wallet ", .val .uuid, .lit " not found"],
  [.lit "Total mismatch: client expected ", .val .decimal, .lit ", server computed ", .val .decimal],
  [.lit "Purchase ", .val .uuid, .lit " not found"],
  [.lit "Wallet ", .val .uuid, .lit " is frozen and cannot be spent from"],
  [.lit "Idempotency key ", .val .quoted, .lit " was already used for a different request"],
  [.lit "A request with idempotency key ", .val .quoted, .lit " is still in progress"],
  [.lit "Unknown promo code ", .val .quoted],
  [.lit "Promo code ", .val .quoted, .lit " requires a subtotal of at least ", .val .decimal,
    .lit ", cart subtotal is ", .val .decimal],
  [.lit "Promo code ", .val .quoted, .lit " is not valid until ", .val .day],
  [.lit "Promo code ", .val .quoted, .lit " expired on ", .val .day],
  [.lit "Promo code ", .val .quoted, .lit " has reached its limit of ", .val .int, .lit " use(s)"],
  [.lit "Promo code ", .val .quoted, .lit " is limited to ", .val .int,
    .lit " use(s) per wallet and has already been used"],
  [.lit "Insufficient funds on wallet ", .val .uuid, .lit ": required ", .val .decimal,
    .lit ", available ", .val .decimal, .lit ", short by ", .val .decimal],
  [.lit "Cannot refund ", .val .decimal, .lit " of purchase ", .val .uuid,
    .lit ": nothing is left to refund"],
  [.lit "Cannot refund ", .val .decimal, .lit " of purchase ", .val .uuid, .lit ": only ",
    .val .decimal, .lit " is left to refund"],
  [.lit "Balance limit exceeded on wallet ", .val .uuid, .lit ": ", .val .decimal,
    .lit " is above the maximum ", .val .decimal]]

theorem apart_of_mem : ∀ a ∈ shapes, ∀ b ∈ shapes, apart a b = true := by decide +kernel

theorem shape_mem_plain {err : Err} {fields : List Field} (h : plainMessage err = some fields) :
    fields.map Field.shape ∈ shapes := by
  cases err with
  | insufficientFunds | refundNotAllowed | balanceLimit | invalidOperation | database => cases h
  | couponWindow code reason =>
    cases reason <;> cases h <;> simp [shapes, Field.shape, Value.kind, WindowReason.message]
  | _ =>
    cases h
    simp [shapes, Field.shape, Value.kind]

theorem shape_mem {e : Error} {fields : List Field} (h : e.message = some fields) :
    fields.map Field.shape ∈ shapes := by
  cases e with
  | plain err => exact shape_mem_plain h
  | refundNotAllowed purchaseId requested remaining =>
    simp only [Error.message] at h
    split_ifs at h <;> cases h <;> simp [shapes, Field.shape, Value.kind]
  | _ =>
    cases h
    simp [shapes, Field.shape, Value.kind]

/-- The two exceptions are the same, or say both that nothing is left to refund. -/
inductive Error.Alike : Error → Error → Prop
  | refl {e} : Alike e e
  | nothingLeft {purchaseId requested remaining remaining'} (h : ¬Decimal.ofInt 0 < remaining)
      (h' : ¬Decimal.ofInt 0 < remaining') : Alike (.refundNotAllowed purchaseId requested remaining)
        (.refundNotAllowed purchaseId requested remaining')

/-- The exception without amounts of a column that a message is of. -/
def plainOf : List Field → Option Err
  | [.lit a, .val (.uuid u), .lit b] =>
    if a = "Purchase " then some (.purchaseNotFound u)
    else if b = " not found" then some (.walletNotFound u)
    else some (.walletFrozen u)
  | [.lit _, .val (.decimal expected), .lit _, .val (.decimal actual)] =>
    some (.totalMismatch expected actual)
  | [.lit a, .val (.quoted key), .lit _] =>
    if a = "Idempotency key " then some (.idempotencyConflict key) else some (.idempotencyInProgress key)
  | [.lit _, .val (.quoted code)] => some (.unknownPromoCode code)
  | [.lit _, .val (.quoted code), .lit _, .val (.decimal minTotal), .lit _, .val (.decimal subtotal)] =>
    some (.promoNotApplicable code minTotal subtotal)
  | [.lit _, .val (.quoted code), .lit b, .val (.day day)] =>
    some (.couponWindow code (if b = " expired on " then .expiredOn day else .notValidUntil day))
  | [.lit _, .val (.quoted code), .lit b, .val (.int n), .lit _] =>
    if b = " has reached its limit of " then some (.couponLimitReached code n)
    else n.map (.couponAlreadyUsed code)
  | _ => none

theorem plainOf_message {err : Err} {fields : List Field} (h : plainMessage err = some fields) :
    plainOf fields = some err := by
  cases err with
  | insufficientFunds | refundNotAllowed | balanceLimit | invalidOperation | database => cases h
  | couponWindow code reason =>
    cases h
    cases reason <;> simp [plainOf, WindowReason.message]
  | _ =>
    cases h
    simp [plainOf]

theorem plainMessage_inj {err err' : Err} {fields : List Field} (h : plainMessage err = some fields)
    (h' : plainMessage err' = some fields) : err = err' :=
  Option.some.inj ((plainOf_message h).symm.trans (plainOf_message h'))

/-- A text that no exception without amounts is told with. -/
theorem plainMessage_ne {err : Err} {s : String} {fields : List Field}
    (hs : s ∈ ["Insufficient funds on wallet ", "Cannot refund ", "Balance limit exceeded on wallet "]) :
    plainMessage err ≠ some (.lit s :: fields) := by
  intro h
  cases err <;> simp [plainMessage] at h <;> obtain ⟨rfl, -⟩ := h <;> simp at hs

theorem refundMessage_alike {purchaseId purchaseId' : UUID} {requested requested' remaining remaining' : Decimal}
    (h : (Error.refundNotAllowed purchaseId requested remaining).message =
      (Error.refundNotAllowed purchaseId' requested' remaining').message) :
    (Error.refundNotAllowed purchaseId requested remaining).Alike
      (.refundNotAllowed purchaseId' requested' remaining') := by
  simp only [Error.message, Option.some.injEq, List.cons_append, List.nil_append, List.cons.injEq,
    Field.val.injEq, Value.decimal.injEq, Value.uuid.injEq, true_and] at h
  obtain ⟨rfl, rfl, h⟩ := h
  by_cases hleft : ¬Decimal.ofInt 0 < remaining <;> by_cases hleft' : ¬Decimal.ofInt 0 < remaining' <;>
    simp only [hleft, hleft', if_true, if_false, not_false_eq_true] at h
  · exact .nothingLeft hleft hleft'
  · exact absurd (Field.lit.inj (List.cons.inj h).1) (by decide)
  · exact absurd (Field.lit.inj (List.cons.inj h).1) (by decide)
  · obtain rfl := Value.decimal.inj (Field.val.inj (List.cons.inj (List.cons.inj h).2).1)
    exact .refl

theorem alike_of_message {e e' : Error} {fields : List Field} (h : e.message = some fields)
    (h' : e'.message = some fields) : e.Alike e' := by
  cases e with
  | plain err herr =>
    cases e' with
    | plain err' herr' =>
      obtain rfl := plainMessage_inj h h'
      exact .refl
    | _ => exact absurd (h.trans h'.symm) (plainMessage_ne (by simp))
  | refundNotAllowed =>
    cases e' with
    | plain => exact absurd (h'.trans h.symm) (plainMessage_ne (by simp))
    | refundNotAllowed => exact refundMessage_alike (h.trans h'.symm)
    | _ => exact absurd (h.trans h'.symm) (by simp [Error.message])
  | insufficientFunds walletId required available =>
    cases e' with
    | plain => exact absurd (h'.trans h.symm) (plainMessage_ne (by simp))
    | insufficientFunds walletId' required' available' =>
      cases h.trans h'.symm
      exact .refl
    | _ => exact absurd (h.trans h'.symm) (by simp [Error.message])
  | balanceLimit walletId attempted =>
    cases e' with
    | plain => exact absurd (h'.trans h.symm) (plainMessage_ne (by simp))
    | balanceLimit walletId' attempted' =>
      cases h.trans h'.symm
      exact .refl
    | _ => exact absurd (h.trans h'.symm) (by simp [Error.message])

theorem apart_unavailable :
    ∀ b ∈ shapes, apart [.lit "Database is unavailable, please retry"] b = true := by decide +kernel

/-- No exception is told with the text for a lost database. -/
theorem detail_ne_unavailable (printable : Char → Bool) (e : Error) :
    (e.refusal printable).detail ≠ unavailable.detail := by
  intro h
  obtain ⟨fields, hmessage, htext⟩ := Option.map_eq_some_iff.mp h
  have hshape := shape_mem hmessage
  have hrender : render printable [.lit "Database is unavailable, please retry"] =
      render printable fields := by
    rw [← String.toList_ofList (l := render printable fields), htext]
    exact List.append_nil _
  have hsame : [.lit "Database is unavailable, please retry"] = fields :=
    render_inj (apart_unavailable _ hshape) hrender
  rw [← hsame] at hshape
  exact absurd hshape (by decide +kernel)

/-- **Messages.**  From the `detail` of an answer the client can tell the exception, with its data, and
that the database has not been lost. -/
theorem alike_of_detail (printable : Char → Bool) {e e' : Error} {detail : String}
    (h : (e.refusal printable).detail = some detail)
    (h' : (e'.refusal printable).detail = some detail) :
    e.Alike e' ∧ unavailable.detail ≠ some detail := by
  refine ⟨?_, fun hlost => detail_ne_unavailable printable e (h.trans hlost.symm)⟩
  obtain ⟨fields, hmessage, rfl⟩ := Option.map_eq_some_iff.mp h
  obtain ⟨fields', hmessage', htext⟩ := Option.map_eq_some_iff.mp h'
  have hsame : fields' = fields := render_inj (apart_of_mem _ (shape_mem hmessage') _ (shape_mem hmessage))
    (String.ofList_injective htext)
  subst hsame
  exact alike_of_message hmessage hmessage'

/-- That nothing is left does not say with how many decimals. -/
theorem alike_of_detail_of_refunds :
    let e : Error := .refundNotAllowed 1 ⟨50, -1⟩ (.ofInt 0)
    let e' : Error := .refundNotAllowed 1 ⟨50, -1⟩ (.ofCents 0)
    let detail := "Cannot refund 5.0 of purchase 00000000-0000-0000-0000-000000000001: " ++
      "nothing is left to refund"
    (e.refusal fun _ => false).detail = some detail ∧ (e'.refusal fun _ => false).detail = some detail ∧
      e ≠ e' ∧ e.Alike e' ∧ unavailable.detail ≠ some detail := by
  intro e e' detail
  have h : (e.refusal fun _ => false).detail = some detail := by decide +kernel
  have h' : (e'.refusal fun _ => false).detail = some detail := by decide +kernel
  exact ⟨h, h', by decide, alike_of_detail (fun _ => false) h h'⟩

end Columns

end WalletUsers

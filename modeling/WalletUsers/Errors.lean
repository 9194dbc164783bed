import WalletUsers.Models

/-!
# Exceptions

Every exception a request can end with, with the data it carries, and the status code the
application answers it with.
-/

namespace WalletUsers

open Python

/-- A point in time, in microseconds since the epoch (UTC). -/
abbrev DateTime := ℤ

/-- The day of a point in time. -/
def DateTime.date (t : DateTime) : ℤ := t / 86400000000

/-- Why a coupon is outside its validity window. -/
inductive WindowReason
  | notValidUntil (day : ℤ)
  | expiredOn (day : ℤ)
deriving DecidableEq, Repr

/-- The errors of the database and its driver that no code of the application catches. -/
inductive DatabaseError
  | numericOverflow
  | integerOverflow
  | argumentOverflow
  | uniqueViolation
  | foreignKeyViolation
  | staleData
deriving DecidableEq, Repr

inductive Err
  | walletNotFound (walletId : UUID)
  | insufficientFunds (walletId : UUID) (required available : ℤ)
  | totalMismatch (expected actual : Decimal)
  | purchaseNotFound (purchaseId : UUID)
  | refundNotAllowed (purchaseId : UUID) (requested remaining : ℤ)
  | walletFrozen (walletId : UUID)
  | balanceLimit (walletId : UUID) (attempted : ℤ)
  | idempotencyConflict (key : String)
  | idempotencyInProgress (key : String)
  | unknownPromoCode (code : String)
  | promoNotApplicable (code : String) (minTotal subtotal : Decimal)
  | couponWindow (code : String) (reason : WindowReason)
  | couponLimitReached (code : String) (maxUses : Option ℤ)
  | couponAlreadyUsed (code : String) (maxPerWallet : ℤ)
  | invalidOperation
  | database (e : DatabaseError)
deriving DecidableEq, Repr

namespace Err

/-- The status code of the answer; an exception without a handler is an internal error. -/
def statusCode : Err → ℕ
  | walletNotFound _ => 404
  | insufficientFunds .. => 400
  | totalMismatch .. => 409
  | unknownPromoCode _ => 400
  | promoNotApplicable .. => 400
  | purchaseNotFound _ => 404
  | refundNotAllowed .. => 409
  | couponWindow .. => 400
  | couponLimitReached .. => 409
  | couponAlreadyUsed .. => 409
  | walletFrozen _ => 409
  | balanceLimit .. => 400
  | idempotencyConflict _ => 422
  | idempotencyInProgress _ => 409
  | invalidOperation => 500
  | database _ => 500

/-- The errors that are the client's: those with a handler. -/
def IsDomain (e : Err) : Prop := 400 ≤ e.statusCode ∧ e.statusCode < 500

instance (e : Err) : Decidable e.IsDomain := inferInstanceAs (Decidable (_ ∧ _))

theorem isDomain_iff {e : Err} : e.IsDomain ↔ e ≠ .invalidOperation ∧ ∀ d, e ≠ .database d := by
  cases e <;> simp [IsDomain, statusCode]

end Err

end WalletUsers

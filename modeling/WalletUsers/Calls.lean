import WalletUsers.Crud

/-!
# The shape of a call

A call with an idempotency key is the same call without a key, between the claim of the key and the
storing of the answer.  Without its key it touches neither the keys nor the history.
-/

namespace WalletUsers

open Txn

namespace Call

/-- The idempotency key of a call. -/
def key : Call → Option String
  | performOperation _ _ _ key _ _ | purchase _ _ _ _ key _ _ | refund _ _ _ key _ _ => key
  | setStatus .. => none

def walletId : Call → UUID
  | performOperation walletId .. | purchase walletId .. | refund walletId .. |
      setStatus walletId _ => walletId

/-- The coupon of a call. -/
def promo : Call → Option Promo
  | purchase _ _ promo _ _ _ _ => promo
  | _ => none

/-- The endpoint and the hash that a call claims its key with. -/
def claim : Call → Endpoint × String
  | performOperation _ _ _ _ hash _ => (.operation, hash)
  | purchase _ _ _ _ _ hash _ => (.purchase, hash)
  | refund _ _ _ _ hash _ => (.refund, hash)
  | setStatus .. => (.operation, "")

/-- The key row of a call that answered `response`. -/
def keyRow (call : Call) (response : Option Payload) : IdempotencyKey :=
  { walletId := call.walletId, endpoint := call.claim.1, requestHash := call.claim.2, response }

/-- The same call, sent without a key. -/
def withoutKey : Call → Call
  | performOperation walletId operationType amount _ hash operationId =>
    performOperation walletId operationType amount none hash operationId
  | purchase walletId charge promo items _ hash ids =>
    purchase walletId charge promo items none hash ids
  | refund walletId purchaseId amount _ hash operationId =>
    refund walletId purchaseId amount none hash operationId
  | setStatus walletId status => setStatus walletId status

@[simp] theorem key_withoutKey (call : Call) : call.withoutKey.key = none := by cases call <;> rfl

@[simp] theorem withoutKey_withoutKey (call : Call) :
    call.withoutKey.withoutKey = call.withoutKey := by
  cases call <;> rfl

@[simp] theorem walletId_withoutKey (call : Call) : call.withoutKey.walletId = call.walletId := by
  cases call <;> rfl

/-- A call is its claim, the call without a key, and the storing of the answer. -/
theorem prog_eq (call : Call) : call.prog =
    claimIdempotency call.key call.walletId call.claim.1 call.claim.2 >>= fun replay =>
      match replay with
      | some replay => pure replay
      | none => call.withoutKey.prog >>= fun payload =>
        storeIdempotentResult call.key payload >>= fun _ => pure payload := by
  cases call with
  | performOperation walletId operationType amount key hash operationId =>
    refine congrArg (claimIdempotency key walletId .operation hash >>= ·) (funext fun replay => ?_)
    rcases replay with _ | replay
    · simp only [withoutKey, prog, WalletUsers.performOperation, claimIdempotency,
        storeIdempotentResult, Prog.bind_assoc, Prog.pure_eq, Prog.ret_bind]
      rfl
    · rfl
  | purchase walletId charge promo items key hash ids =>
    refine congrArg (claimIdempotency key walletId .purchase hash >>= ·) (funext fun replay => ?_)
    rcases replay with _ | replay
    · simp only [withoutKey, prog, WalletUsers.purchase, claimIdempotency,
        Prog.bind_assoc, Prog.pure_eq, Prog.ret_bind]
      congr 1
      funext _
      congr 1
      funext wallet
      rcases wallet with _ | wallet
      · rfl
      simp only [Prog.bind_assoc]
      congr 1
      funext _
      split_ifs
      · rfl
      · simp only [Prog.bind_assoc]
        rfl
    · rfl
  | refund walletId purchaseId amount key hash operationId =>
    refine congrArg (claimIdempotency key walletId .refund hash >>= ·) (funext fun replay => ?_)
    rcases replay with _ | replay
    · simp only [withoutKey, prog, WalletUsers.refund, claimIdempotency,
        Prog.bind_assoc, Prog.pure_eq, Prog.ret_bind]
      congr 1
      funext record
      rcases record with _ | record
      · rfl
      dsimp only
      split_ifs
      · rfl
      simp only [Prog.bind_assoc]
      congr 1
      funext wallet
      rcases wallet with _ | wallet
      · rfl
      · simp only [Prog.bind_assoc]
        rfl
    · rfl
  | setStatus walletId status =>
    show WalletUsers.setStatus walletId status =
      WalletUsers.setStatus walletId status >>= fun payload => Prog.ret payload
    exact (Prog.bind_ret _).symm

end Call

/-! ## The statements without the key -/

/-- A statement on the other tables than the keys, and not a page of the history. -/
def Stmt.Plain : Stmt → Prop
  | insertKey .. | getKey _ | updateKey .. | selectOperations .. => False
  | _ => True

theorem all_execute {P : Stmt → Prop} {o : Stmt} {k : o.Res → Tx (Except DatabaseError Unit)}
    (ho : P o) (hk : ∀ r, (k r).All P) : (execute (.stmt o k)).All P := by
  refine Prog.all_bind ⟨ho, hk⟩ fun result => ?_
  rcases result with e | u <;> trivial

theorem all_lockWallet (walletId : UUID) : (lockWallet walletId).All Stmt.Plain :=
  ⟨trivial, fun _ => trivial⟩

theorem all_operationWallet (walletId : UUID) (operationType : OperationType) :
    (operationWallet walletId operationType).All Stmt.Plain := by
  refine Prog.all_bind (all_lockWallet walletId) fun wallet => ?_
  rcases wallet with _ | wallet <;> cases operationType <;> try trivial
  refine ⟨trivial, fun inserted => ?_⟩
  show Prog.All _ (if inserted = true then _ else _)
  split_ifs
  · trivial
  refine Prog.all_bind (all_lockWallet walletId) fun existing => ?_
  rcases existing with _ | existing <;> trivial

section Statements

variable {P : Stmt → Prop}

theorem all_credit (walletId : UUID) (wallet : Wallet) (amount : ℤ) :
    (credit walletId wallet amount).All P := by
  unfold credit
  dsimp only
  split_ifs <;> trivial

theorem all_ensureSpendable (walletId : UUID) (wallet : Wallet) :
    (ensureSpendable walletId wallet).All P := by
  unfold ensureSpendable
  split_ifs <;> trivial

theorem all_applyOperation (walletId : UUID) (wallet : Wallet) (amount : ℤ)
    (operationType : OperationType) :
    (applyOperation walletId wallet amount operationType).All P := by
  cases operationType with
  | deposit => exact Prog.all_bind (all_credit _ _ _) fun _ => trivial
  | withdraw =>
    refine Prog.all_bind (all_ensureSpendable _ _) fun _ => ?_
    split_ifs <;> trivial

theorem all_checkWalletLimit (promo : Promo) (walletId : UUID)
    (h : P (.countRedemptions promo.code walletId)) : (checkWalletLimit promo walletId).All P := by
  unfold checkWalletLimit
  rcases promo.maxUsesPerWallet with _ | limit
  · trivial
  · refine ⟨h, fun usedHere => ?_⟩
    show Prog.All _ (if _ then _ else _)
    split_ifs <;> trivial

end Statements

/-- A statement on the counters and the uses of the coupons. -/
def Stmt.OnCoupon : Stmt → Prop
  | getUsage _ | insertUsage .. | incrementUsage .. | countRedemptions .. => True
  | _ => False

theorem Stmt.OnCoupon.plain {o : Stmt} (h : o.OnCoupon) : o.Plain := by
  cases o <;> trivial

theorem all_claimCouponIfAny (promo : Option Promo) (walletId : UUID) :
    (claimCouponIfAny promo walletId).All Stmt.OnCoupon := by
  rcases promo with _ | promo
  · trivial
  refine Prog.all_bind ⟨trivial, fun existing => ?_⟩ fun _ => ⟨trivial, fun result => ?_⟩
  · rcases existing with _ | existing
    · exact ⟨trivial, fun _ => trivial⟩
    · trivial
  · rcases result with e | _ | n
    · trivial
    · trivial
    · exact all_checkWalletLimit promo walletId trivial

theorem all_redeemCoupon (promo : Option Promo) (id walletId purchaseId : UUID) :
    (redeemCoupon promo id walletId purchaseId).All Stmt.Plain := by
  rcases promo with _ | promo
  · trivial
  · exact all_execute trivial fun _ => trivial

/-- Without its key, a call uses the other tables only. -/
theorem all_withoutKey (call : Call) : call.withoutKey.prog.All Stmt.Plain := by
  cases call with
  | performOperation walletId operationType amount key hash operationId =>
    refine Prog.all_bind trivial fun replay => ?_
    rcases replay with _ | replay
    · refine Prog.all_bind (all_operationWallet walletId operationType) fun wallet => ?_
      refine Prog.all_bind (all_applyOperation _ _ _ _) fun _ => ?_
      refine Prog.all_bind (all_execute trivial fun _ => trivial) fun _ => ?_
      exact Prog.all_bind (all_execute trivial fun _ => trivial) fun _ => trivial
    · trivial
  | purchase walletId charge promo items key hash ids =>
    refine Prog.all_bind trivial fun replay => ?_
    rcases replay with _ | replay
    · have hcoupon : (claimCouponIfAny promo walletId).All Stmt.Plain :=
        (all_claimCouponIfAny promo walletId).mono fun _ => Stmt.OnCoupon.plain
      refine Prog.all_bind hcoupon fun _ => ?_
      refine Prog.all_bind (all_lockWallet walletId) fun wallet => ?_
      rcases wallet with _ | wallet
      · trivial
      refine Prog.all_bind (all_ensureSpendable _ _) fun _ => ?_
      split_ifs
      · trivial
      refine Prog.all_bind (all_execute trivial fun _ => trivial) fun _ => ?_
      refine Prog.all_bind (all_execute trivial fun _ => trivial) fun _ => ?_
      refine Prog.all_bind (all_redeemCoupon _ _ _ _) fun _ => ?_
      exact Prog.all_bind (all_execute trivial fun _ => trivial) fun _ => trivial
    · trivial
  | refund walletId purchaseId amount key hash operationId =>
    refine Prog.all_bind trivial fun replay => ?_
    rcases replay with _ | replay
    · refine ⟨trivial, fun record => ?_⟩
      rcases record with _ | record
      · trivial
      show Prog.All _ (if _ then _ else _)
      split_ifs
      · trivial
      refine Prog.all_bind (all_lockWallet walletId) fun wallet => ?_
      rcases wallet with _ | wallet
      · trivial
      refine Prog.all_bind (all_credit _ _ _) fun wallet' => ?_
      refine Prog.all_bind (all_execute trivial fun _ => trivial) fun _ => ?_
      refine Prog.all_bind (all_execute trivial fun _ => trivial) fun _ => ?_
      exact Prog.all_bind (all_execute trivial fun _ => trivial) fun _ => trivial
    · trivial
  | setStatus walletId status =>
    refine Prog.all_bind (all_lockWallet walletId) fun wallet => ?_
    rcases wallet with _ | wallet
    · trivial
    · exact Prog.all_bind (all_execute trivial fun _ => trivial) fun _ => trivial

end WalletUsers

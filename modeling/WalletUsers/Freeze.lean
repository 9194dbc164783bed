import WalletUsers.Isolation
import WalletUsers.Ledger

/-!
# Frozen wallets

From the commit that freezes a wallet to the next commit that unfreezes it, no commit takes anything
from it: every debit reads the status under the lock that the freeze has held.  Deposits and refunds
do not notice: they end as they would on the same store with the wallet active (`Store.activate`).
-/

namespace WalletUsers

open Txn

namespace Store

/-- The ids of the purchases of a wallet. -/
def purchaseIds (s : Store) (walletId : UUID) : List UUID :=
  (s.purchases.filter fun p => p.walletId = walletId).map (·.id)

/-- The redemptions of a wallet. -/
def redemptionsBy (s : Store) (walletId : UUID) : List CouponRedemption :=
  s.redemptions.filter fun r => r.walletId = walletId

/-- The same store, with the wallet active. -/
def activate (s : Store) (walletId : UUID) : Store :=
  { s with
    wallets := Function.update s.wallets walletId
      ((s.wallets walletId).map fun wallet => { wallet with status := .active }) }

end Store

/-- The wallet is there, and frozen. -/
def Frozen (s : Store) (walletId : UUID) : Prop :=
  ∃ wallet, s.wallets walletId = some wallet ∧ wallet.status = .frozen

/-- Between the two stores nothing has been taken from the wallet. -/
structure Spared (walletId : UUID) (s s' : Store) : Prop where
  balance : balanceOf (s.wallets walletId) ≤ balanceOf (s'.wallets walletId)
  ledger : ∃ rows, s'.ledger walletId = s.ledger walletId ++ rows ∧
    ∀ row ∈ rows, row.kind ≠ .withdraw ∧ row.kind ≠ .purchase
  purchases : s'.purchaseIds walletId = s.purchaseIds walletId
  redemptions : s'.redemptionsBy walletId = s.redemptionsBy walletId

/-- A call that pays something in: a deposit or a refund. -/
def Call.IsCredit : Call → Prop
  | performOperation _ .deposit _ _ _ _ | refund .. => True
  | _ => False

variable {now : ℕ} {s s' : Store} {call : Call} {payload : Payload} {ws : List Write}
  {walletId : UUID}

/-! ## What a plan does to a frozen wallet -/

theorem spared_refl (walletId : UUID) (s : Store) : Spared walletId s s where
  balance := le_rfl
  ledger := ⟨[], (List.append_nil _).symm, fun _ h => absurd h List.not_mem_nil⟩
  purchases := rfl
  redemptions := rfl

/-- A movement takes nothing from the other wallets, and nothing from its own if it is a credit. -/
theorem spared_of_move {wallet : Wallet} {row : OperationRow}
    (hwallets : s'.wallets = Function.update s.wallets row.walletId (some wallet))
    (hoperations : s'.operations = s.operations ++ [row])
    (hcredit : row.walletId = walletId → balanceOf (s.wallets walletId) ≤ wallet.balance ∧
      row.kind ≠ .withdraw ∧ row.kind ≠ .purchase)
    (hpurchases : s'.purchaseIds walletId = s.purchaseIds walletId)
    (hredemptions : s'.redemptionsBy walletId = s.redemptionsBy walletId) :
    Spared walletId s s' := by
  refine ⟨?_, ⟨_, ledger_of_append hoperations walletId, fun r hr => ?_⟩, hpurchases, hredemptions⟩
  · rw [hwallets]
    by_cases hid : row.walletId = walletId
    · subst hid
      rw [Function.update_self]
      exact (hcredit rfl).1
    · rw [Function.update_of_ne (Ne.symm hid)]
  · split_ifs at hr with hid
    · rw [List.mem_singleton.mp hr]
      exact (hcredit hid).2
    · cases hr

/-- A refund changes neither the id of a purchase nor its wallet. -/
theorem purchaseIds_putPurchase {record : Purchase} (row : Purchase)
    (hunique : (s.purchases.map (·.id)).Nodup) (hmem : record ∈ s.purchases) (hid : row.id = record.id)
    (howner : row.walletId = record.walletId) (walletId : UUID) :
    (s.apply (.putPurchase row)).purchaseIds walletId = s.purchaseIds walletId := by
  have hsame : ∀ p ∈ s.purchases, (if p.id = row.id then row else p).id = p.id ∧
      (if p.id = row.id then row else p).walletId = p.walletId := by
    intro p hp
    split_ifs with heq
    · have hrec : p = record := List.inj_on_of_nodup_map hunique hp hmem (heq.trans hid)
      exact ⟨heq.symm, by rw [hrec, howner]⟩
    · exact ⟨rfl, rfl⟩
  show ((s.purchases.map _).filter _).map _ = (s.purchases.filter _).map _
  rw [List.filter_map, List.map_map]
  have hfilter : s.purchases.filter
      ((fun p => decide (p.walletId = walletId)) ∘ fun p => if p.id = row.id then row else p) =
        s.purchases.filter fun p => p.walletId = walletId :=
    List.filter_congr fun p hp => by simp only [Function.comp_apply, (hsame p hp).2]
  rw [hfilter]
  exact List.map_congr_left fun p hp => (hsame p (List.mem_of_mem_filter hp)).1

/-- **No plan takes anything from a frozen wallet.** -/
theorem Frozen.spared (h : Frozen s walletId) (hunique : (s.purchases.map (·.id)).Nodup)
    (hcall : call.Admissible) (hplan : Plans now s call payload ws) :
    Spared walletId s (postgres.applyAll s ws) := by
  obtain ⟨frozen, hfrozen, hstatus⟩ := h
  -- a wallet that has passed the check of the status is another one
  have hother : ∀ {id wallet}, s.wallets id = some wallet → wallet.status ≠ .frozen →
      id ≠ walletId := by
    rintro id wallet hwallet hactive rfl
    cases hwallet.symm.trans hfrozen
    exact hactive hstatus
  cases hplan with
  | @deposit id amount key hash operationId wallet hwallet hmax =>
    have hamount : 0 < amount := hcall
    refine spared_of_move rfl rfl (fun hid => ⟨?_, by simp, by simp⟩) rfl rfl
    cases hid
    rw [hfrozen] at hwallet ⊢
    cases hwallet
    show frozen.balance ≤ frozen.balance + amount
    omega
  | @withdraw id amount key hash operationId wallet hwallet hactive hfunds =>
    exact spared_of_move rfl rfl (fun hid => absurd hid (hother hwallet hactive)) rfl rfl
  | @purchase id charge promo items key hash ids claimed wallet hcoupon hwallet hactive hfunds =>
    have hne : id ≠ walletId := hother hwallet hactive
    generalize hs' : postgres.applyAll s _ = s'
    obtain ⟨hwallets, hpurchases, -, hredemptions, hoperations, -⟩ :=
      tables_of_purchase hcoupon hs'.symm
    refine spared_of_move hwallets hoperations (fun hid => absurd hid hne) ?_ ?_
    · unfold Store.purchaseIds
      rw [hpurchases, List.filter_append]
      simp [purchaseRow, hne]
    · unfold Store.redemptionsBy
      rw [hredemptions, List.filter_append]
      rcases promo with _ | promo
      · simp
      · simp [hne]
  | @refund id purchaseId amount key hash operationId record wallet requested hfind howner hrequested
      hpos hle hwallet hmax =>
    refine spared_of_move rfl rfl (fun hid => ⟨?_, by simp, by simp⟩) ?_ rfl
    · cases hid
      rw [hwallet]
      show wallet.balance ≤ wallet.balance + requested
      omega
    · exact purchaseIds_putPurchase
        { record with refundedTotal := record.refundedTotal + requested } hunique
        (List.mem_of_find?_eq_some hfind) rfl rfl walletId
  | @setStatus id status wallet hwallet =>
    refine ⟨?_, ⟨[], (List.append_nil _).symm, fun _ h => absurd h List.not_mem_nil⟩, rfl, rfl⟩
    show _ ≤ balanceOf (Function.update s.wallets id (some { wallet with status }) walletId)
    by_cases hid : walletId = id
    · subst hid
      rw [Function.update_self, hwallet]
      exact le_rfl
    · rw [Function.update_of_ne hid]

theorem Frozen.update {id : UUID} {wallet : Wallet} (h : Frozen s walletId)
    (hwallets : s'.wallets = Function.update s.wallets id (some wallet))
    (hstatus : id = walletId → wallet.status = .frozen) : Frozen s' walletId := by
  by_cases hid : walletId = id
  · exact ⟨wallet, by rw [hwallets, hid, Function.update_self], hstatus hid.symm⟩
  · obtain ⟨frozen, hfrozen, hst⟩ := h
    exact ⟨frozen, by rw [hwallets, Function.update_of_ne hid, hfrozen], hst⟩

/-- Only a change of its status unfreezes a wallet. -/
theorem Frozen.plans (h : Frozen s walletId) (hcall : call ≠ .setStatus walletId .active)
    (hplan : Plans now s call payload ws) : Frozen (postgres.applyAll s ws) walletId := by
  have hkept : ∀ id wallet, s.wallets id = some wallet → id = walletId →
      wallet.status = .frozen := by
    rintro id wallet hwallet rfl
    obtain ⟨frozen, hfrozen, hstatus⟩ := h
    cases hwallet.symm.trans hfrozen
    exact hstatus
  cases hplan with
  | @deposit id amount key hash operationId wallet hwallet hmax =>
    refine h.update rfl fun hid => ?_
    obtain ⟨frozen, hfrozen, hstatus⟩ := h
    rw [hid, hfrozen] at hwallet
    cases hwallet
    exact hstatus
  | withdraw wallet hwallet => exact h.update rfl fun hid => hkept _ wallet hwallet hid
  | @purchase id charge promo items key hash ids claimed wallet hcoupon hwallet =>
    generalize hs' : postgres.applyAll s _ = s'
    obtain ⟨hwallets, -⟩ := tables_of_purchase hcoupon hs'.symm
    exact h.update hwallets fun hid => hkept _ wallet hwallet hid
  | refund record wallet requested hfind howner hrequested hpos hle hwallet =>
    exact h.update rfl fun hid => hkept _ wallet hwallet hid
  | @setStatus id status wallet hwallet =>
    refine h.update rfl fun hid => ?_
    cases status with
    | active => exact absurd (by rw [hid]) hcall
    | frozen => rfl

/-! ## Credits -/

/-- A write to the same store, with the wallet active. -/
def Write.activate (walletId : UUID) : Write → Write
  | .putWallet id row =>
    .putWallet id (if id = walletId then { row with status := .active } else row)
  | w => w

theorem wallets_activate {id : UUID} : (s.activate walletId).wallets id =
    (s.wallets id).map fun row => if id = walletId then { row with status := .active } else row := by
  by_cases hid : id = walletId <;> simp [Store.activate, hid]

theorem wallets_activate_eq_none {id : UUID} :
    (s.activate walletId).wallets id = none ↔ s.wallets id = none := by
  by_cases hid : id = walletId <;> simp [Store.activate, hid]

theorem refuse_activate (w : Write) :
    (s.activate walletId).refuse (w.activate walletId) = s.refuse w := by
  cases w with
  | putWallet id row =>
    by_cases hid : id = walletId <;> simp [Write.activate, Store.refuse, hid]
  | addPurchase row =>
    simp only [Write.activate, Store.refuse, Store.purchaseError, wallets_activate_eq_none]
    rfl
  | addRedemption row =>
    simp only [Write.activate, Store.refuse, Store.redemptionError, wallets_activate_eq_none]
    rfl
  | addOperation row =>
    simp only [Write.activate, Store.refuse, Store.operationError, wallets_activate_eq_none]
    rfl
  | _ => rfl

theorem apply_activate (w : Write) :
    (s.activate walletId).apply (w.activate walletId) = (s.apply w).activate walletId := by
  cases w with
  | putWallet id row =>
    refine Store.ext ?_ rfl rfl rfl rfl rfl
    simp only [Store.activate, Store.apply, Write.activate]
    by_cases hid : id = walletId
    · subst hid
      simp
    · rw [Function.update_of_ne (Ne.symm hid), if_neg hid, Function.update_comm hid]
  | _ => rfl

theorem writeAll_activate (ws : List Write) :
    (s.activate walletId).writeAll (ws.map (Write.activate walletId)) =
      (s.writeAll ws).map fun s' => s'.activate walletId := by
  induction ws generalizing s with
  | nil => rfl
  | cons w ws ih =>
    show (s.activate walletId).write _ >>= _ = (s.write w >>= _).map _
    unfold Store.write
    rw [refuse_activate]
    cases s.refuse w with
    | none =>
      show ((s.activate walletId).apply _).writeAll _ = _
      rw [apply_activate]
      exact ih
    | some e => rfl

/-- A credit plans the same on the active wallet. -/
theorem plan_activate (hcredit : call.IsCredit) (now : ℕ) (s : Store) (walletId : UUID) :
    call.plan now (s.activate walletId) =
      (call.plan now s).map fun x => (x.1, x.2.map (Write.activate walletId)) := by
  -- the balance decides, and is the same
  have hbalance : ∀ (id : UUID) (wallet : Wallet),
      (if id = walletId then { wallet with status := .active } else wallet).balance =
        wallet.balance := by
    intro id wallet
    split_ifs <;> rfl
  have hwrite : ∀ (id : UUID) (wallet : Wallet) (balance : ℤ),
      (Write.putWallet id { (if id = walletId then { wallet with status := .active } else wallet) with
        balance }) = (Write.putWallet id { wallet with balance }).activate walletId := by
    intro id wallet balance
    by_cases hid : id = walletId <;> simp [Write.activate, hid]
  cases call with
  | performOperation id operationType amount key hash operationId =>
    cases operationType with
    | deposit =>
      have hopened : ((s.activate walletId).wallets id).getD { balance := 0 } =
          let wallet := (s.wallets id).getD { balance := 0 }
          if id = walletId then { wallet with status := .active } else wallet := by
        rw [wallets_activate]
        cases s.wallets id with
        | none => split_ifs <;> rfl
        | some wallet => rfl
      simp only [Call.plan, planOperation, hopened, hbalance, hwrite]
      split_ifs <;> rfl
    | withdraw => cases hcredit
  | purchase => cases hcredit
  | refund id purchaseId amount key hash operationId =>
    have hfind : (s.activate walletId).findPurchase = s.findPurchase := rfl
    simp only [Call.plan, planRefund, wallets_activate, hfind]
    cases (s.findPurchase purchaseId).filter fun p => p.walletId = id with
    | none => rfl
    | some record =>
      cases s.wallets id with
      | none =>
        dsimp only [Option.map_none]
        split_ifs <;> rfl
      | some wallet =>
        simp only [Option.map_some, hbalance, hwrite]
        split_ifs <;> rfl
  | setStatus => cases hcredit

/-- **A credit alone ends in the same way on the active wallet.** -/
theorem eval_activate (hcredit : call.IsCredit) (now : ℕ) (s : Store) (walletId : UUID) :
    postgres.eval now call.prog (s.activate walletId) =
      (postgres.eval now call.prog s).map fun x => (x.1, x.2.activate walletId) := by
  have hreplay : (s.activate walletId).replay call = s.replay call := rfl
  rw [eval_call, eval_call, hreplay]
  cases s.replay call with
  | error e => rfl
  | ok replay =>
    cases replay with
    | some response => rfl
    | none =>
      show (call.plan now (s.activate walletId) >>= _) = Except.map _ (call.plan now s >>= _)
      rw [plan_activate hcredit]
      cases call.plan now s with
      | error e => rfl
      | ok x =>
        show ((s.activate walletId).writeAll (x.2.map _) >>= _) =
          Except.map _ (s.writeAll x.2 >>= _)
        rw [writeAll_activate]
        cases s.writeAll x.2 with
        | error e => rfl
        | ok s' =>
          have hkeys : postgres.applyAll (s'.activate walletId) (call.remember x.1) =
              (postgres.applyAll s' (call.remember x.1)).activate walletId := by
            unfold Call.remember
            cases call.key <;> rfl
          show Except.ok (x.1, postgres.applyAll (s'.activate walletId) _) = _
          rw [hkeys]
          rfl

/-! ## Interleavings -/

section Run

variable {ι : Type} [DecidableEq ι] {calls : ι → Call}
  {c c' : Config Store Stmt Stmt.Res Write Lock ι Err Payload} {i : ι}

/-- The next step of `i` is the commit of the change of status. -/
def SetsStatus (calls : ι → Call) (walletId : UUID) (status : WalletStatus)
    (c : Config Store Stmt Stmt.Res Write Lock ι Err Payload) (i : ι) : Prop :=
  calls i = .setStatus walletId status ∧ (c.phase i).returns.isSome

/-- The committed purchases have different ids. -/
theorem nodup_purchases_of_steps
    (hsteps : Steps postgres (fun i => (calls i).prog) (.initial .empty) c) :
    (c.store.purchases.map (·.id)).Nodup :=
  invariant_of_steps (I := fun s => (s.purchases.map (·.id)).Nodup) (guarded_calls calls)
    (fun i now _ h => nodup_atomically h now (calls i)) .refl hsteps List.nodup_nil

/-- The commit of a freeze leaves the wallet frozen. -/
theorem frozen_of_setsStatus
    (hsteps : Steps postgres (fun i => (calls i).prog) (.initial .empty) c)
    (hfreeze : SetsStatus calls walletId .frozen c i)
    (hstep : step postgres (fun i => (calls i).prog) c i = some c') : Frozen c'.store walletId := by
  obtain ⟨hcall, hret⟩ := hfreeze
  obtain ⟨⟨began, a⟩, hp⟩ := Option.isSome_iff_exists.mp hret
  have hat := atomically_of_commit (guarded_calls calls) hsteps hstep hp
  rw [hcall] at hat
  rcases call_ok hat with ⟨hreplay, -⟩ | ⟨ws, s₁, -, hplan, hwrite, hs'⟩
  · cases hreplay
  · cases hplan with
    | setStatus wallet hwallet =>
      refine ⟨{ wallet with status := .frozen }, ?_, rfl⟩
      rw [hs', writeAll_ok hwrite]
      exact Function.update_self ..

/-- **Step.**  A step takes nothing from a frozen wallet, and leaves it frozen unless it commits the
opposite. -/
theorem Frozen.step (h : Frozen c.store walletId) (hcalls : ∀ i, (calls i).Admissible)
    (hsteps : Steps postgres (fun i => (calls i).prog) (.initial .empty) c)
    (hstep : step postgres (fun i => (calls i).prog) c i = some c') :
    Spared walletId c.store c'.store ∧
      (¬SetsStatus calls walletId .active c i → Frozen c'.store walletId) := by
  rcases store_step (guarded_calls calls) hsteps hstep with heq | ⟨began, a, pend, hp, hat, -⟩
  · rw [heq]
    exact ⟨spared_refl walletId c.store, fun _ => h⟩
  have hunique := nodup_purchases_of_steps hsteps
  rcases call_ok hat with ⟨-, heq⟩ | ⟨ws, s₁, -, hplan, hwrite, heq⟩
  · rw [heq]
    exact ⟨spared_refl walletId c.store, fun _ => h⟩
  · obtain ⟨keys, hkeys⟩ := applyAll_remember s₁ (calls i) a
    rw [heq, hkeys, writeAll_ok hwrite]
    have hspared := h.spared hunique (hcalls i) hplan
    have hret : (c.phase i).returns.isSome := by simp [Phase.returns, hp]
    refine ⟨⟨hspared.balance, hspared.ledger, hspared.purchases, hspared.redemptions⟩, fun hset => ?_⟩
    exact h.plans (fun hcall => hset ⟨hcall, hret⟩) hplan

/-- **A freeze holds under concurrency.**  After the commit that freezes a wallet, and for as long as
no commit unfreezes it, no step of any transaction takes anything from the wallet, however long ago
the transaction has begun; and every deposit or refund on it whose end is decided there ends as it
would on the same store with the wallet active. -/
theorem freeze_holds (calls : ι → Call) (hcalls : ∀ i, (calls i).Admissible) (walletId : UUID)
    {c c₁ c₂ c₃ : Config Store Stmt Stmt.Res Write Lock ι Err Payload} {i j : ι}
    (hsteps : Steps postgres (fun i => (calls i).prog) (.initial .empty) c)
    (hfreeze : SetsStatus calls walletId .frozen c i)
    (hcommit : step postgres (fun i => (calls i).prog) c i = some c₁)
    (hfrozen : StepsWhere postgres (fun i => (calls i).prog)
      (fun c k => ¬SetsStatus calls walletId .active c k) c₁ c₂)
    (hstep : step postgres (fun i => (calls i).prog) c₂ j = some c₃) :
    Spared walletId c₂.store c₃.store ∧
    ((calls j).IsCredit → ∀ began r, Decides c₂ c₃ j began r →
      (postgres.atomically began (calls j).prog (c₂.store.activate walletId)).1 = r) := by
  have hsteps₁ := hsteps.tail ⟨i, hcommit⟩
  have hsteps₂ := hsteps₁.trans hfrozen.steps
  have hstill : Frozen c₂.store walletId :=
    hfrozen.invariant (I := fun c => Frozen c.store walletId)
      (fun hreached hk hstep h => (h.step hcalls hreached hstep).2 hk) hsteps₁
      (frozen_of_setsStatus hsteps hfreeze hcommit)
  refine ⟨(hstill.step hcalls hsteps₂ hstep).1, fun hcredit began r hdecides => ?_⟩
  have hend := atomically_of_decides (guarded_calls calls) hsteps₂ hstep hdecides
  rw [← hend, Engine.atomically_eq, Engine.atomically_eq, eval_activate hcredit]
  cases postgres.eval began (calls j).prog c₂.store <;> rfl

end Run

/-- A purchase has begun when its wallet is frozen, and is refused; a deposit goes on. -/
theorem freeze_holds_of_begun_purchase :
    let calls : Fin 4 → Call := fun i =>
      if i = 0 then .performOperation 7 .deposit 5000 none "" 1
      else if i = 1 then .purchase 7 ⟨1000, 0, 1000⟩ none [] none "" ⟨2, 2, 2⟩
      else if i = 2 then .setStatus 7 .frozen
      else .performOperation 7 .deposit 300 none "" 3
    let prog := fun i => (calls i).prog
    ∃ c c₁ c₂ c₃ : Config Store Stmt Stmt.Res Write Lock (Fin 4) Err Payload,
      Steps postgres prog (.initial .empty) c ∧ step postgres prog c 2 = some c₁ ∧
      Steps postgres prog c₁ c₂ ∧ step postgres prog c₂ 3 = some c₃ ∧
      (c₂.phase 1).outcome = some (.error (.walletFrozen 7)) ∧ Spared 7 c₂.store c₃.store ∧
      ∃ began, (postgres.atomically began (calls 3).prog (c₂.store.activate 7)).1 =
        .ok (.balance 5300) := by
  intro calls prog
  have hrun : (runSchedule postgres prog (.initial .empty)
      (List.replicate 6 0 ++ 1 :: List.replicate 3 2)).any (fun c =>
        decide ((c.phase 2).returns.isSome) && (step postgres prog c 2).any fun c₁ =>
          (runSchedule postgres prog c₁ (List.replicate 2 1 ++ List.replicate 4 3)).any fun c₂ =>
            decide ((c₂.phase 1).outcome = some (.error (.walletFrozen 7))) &&
            decide ((c₂.phase 3).returns.map Prod.snd = some (.balance 5300)) &&
            (step postgres prog c₂ 3).isSome) = true := by decide +kernel
  obtain ⟨c, hc, hdec⟩ := (Option.any_eq_true _ _).mp hrun
  rw [Bool.and_eq_true, decide_eq_true_eq, Option.any_eq_true] at hdec
  obtain ⟨hfreeze, c₁, hc₁, hdec⟩ := hdec
  obtain ⟨c₂, hc₂, hdec⟩ := (Option.any_eq_true _ _).mp hdec
  simp only [Bool.and_eq_true, decide_eq_true_eq] at hdec
  obtain ⟨⟨hrefused, hret⟩, hlast⟩ := hdec
  obtain ⟨c₃, hc₃⟩ := Option.isSome_iff_exists.mp hlast
  obtain ⟨⟨began, a⟩, hbegan, ha⟩ := Option.map_eq_some_iff.mp hret
  have hcalls : ∀ i, (calls i).Admissible := by
    intro i
    unfold calls
    split_ifs
    · exact (by decide : (0 : ℤ) < 5000)
    · exact ⟨.ofCents 1000, _, by decide, rfl, by decide⟩
    · trivial
    · exact (by decide : (0 : ℤ) < 300)
  have hnever : ∀ c k, ¬SetsStatus calls 7 .active c k := by
    intro c k hset
    have hcall := hset.1
    unfold calls at hcall
    split_ifs at hcall
    cases hcall
  have hwhile : StepsWhere postgres prog (fun c k => ¬SetsStatus calls 7 .active c k) c₁ c₂ :=
    Relation.ReflTransGen.mono (fun _ _ ⟨k, hk⟩ => ⟨k, hnever _ k, hk⟩) _ _
      (steps_of_runSchedule hc₂)
  obtain ⟨hspared, hcredit⟩ := freeze_holds calls hcalls 7 (steps_of_runSchedule hc) ⟨rfl, hfreeze⟩ hc₁
    hwhile hc₃
  cases ha
  exact ⟨c, c₁, c₂, c₃, steps_of_runSchedule hc, hc₁, steps_of_runSchedule hc₂, hc₃, hrefused, hspared,
    began, hcredit trivial began _ (.commit hbegan)⟩

end WalletUsers

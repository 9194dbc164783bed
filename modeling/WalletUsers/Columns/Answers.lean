import WalletUsers.Columns.Refinement
import WalletUsers.Txn.Ensures

/-!
# One key, one answer

The row of a key is inserted under its lock, and is not changed any more once it has its response.  So
whatever has been answered under a key is what its JSON text is validated into, digit for digit.
-/

namespace WalletUsers.Columns

open Python Txn Abstraction

/-! ## What the locks of the keys protect -/

/-- The locks a change is made under, as far as keys go. -/
def Change.keys : Change → Set Lock
  | putKey key _ => {.key key}
  | _ => ∅

/-- A key that has its response keeps it. -/
def Remembers (t t' : Tables) : Prop :=
  ∀ key row, t.keys key = some row → row.response.isSome → t'.keys key = some row

theorem Tables.keys_apply {w : Change} {key : String} (h : Lock.key key ∉ w.keys) (t : Tables) :
    (t.apply w).keys key = t.keys key := by
  cases w with
  | putKey key' row => exact Function.update_of_ne (fun heq => h (by rw [heq]; rfl)) _ _
  | addPurchase | putPurchase | plain => rfl

theorem keys_applyAll_of_covered {ws : List Change} {H : Set Lock} (hws : ∀ w ∈ ws, w.keys ⊆ H)
    {key : String} (h : Lock.key key ∉ H) (t : Tables) :
    (columns.applyAll t ws).keys key = t.keys key := by
  induction ws generalizing t with
  | nil => rfl
  | cons w ws ih =>
    rw [Engine.applyAll_cons, ih fun w' hw' => hws w' (List.mem_cons_of_mem _ hw')]
    exact Tables.keys_apply (fun hmem => h (hws w List.mem_cons_self hmem)) t

/-- Tables whose keys agree, agree on them after a change. -/
theorem keys_apply_congr {t t' : Tables} {key : String} (w : Change) (h : t'.keys key = t.keys key) :
    (t'.apply w).keys key = (t.apply w).keys key := by
  cases w with
  | putKey key' row =>
    show Function.update t'.keys key' (some row) key = Function.update t.keys key' (some row) key
    by_cases hkey : key = key'
    · subst hkey
      rw [Function.update_self, Function.update_self]
    · rw [Function.update_of_ne hkey, Function.update_of_ne hkey]
      exact h
  | addPurchase | putPurchase | plain => exact h

theorem Remembers.apply {t t' : Tables} (h : Remembers t t') (w : Change) :
    Remembers (t.apply w) (t'.apply w) := by
  intro key row hrow hresponse
  by_cases hw : Lock.key key ∈ w.keys
  · cases w with
    | putKey key' row' =>
      obtain rfl : key = key' := Lock.key.inj hw
      show Function.update t'.keys key (some row') key = some row
      have hself : Function.update t.keys key (some row') key = some row := hrow
      rw [Function.update_self] at hself ⊢
      exact hself
    | addPurchase | putPurchase | plain => cases hw
  · rw [Tables.keys_apply hw] at hrow ⊢
    exact h key row hrow hresponse

/-- **The discipline of the keys.** -/
def keyLocks : Discipline columns where
  Later H t t' := (∀ key, Lock.key key ∈ H → t'.keys key = t.keys key) ∧ Remembers t t'
  touches := Change.keys
  Valid l t := ∀ key, l = .key key → t.keys key = none
  refl H t := ⟨fun _ _ => rfl, fun _ _ hrow _ => hrow⟩
  trans h h' := ⟨fun key hkey => (h'.1 key hkey).trans (h.1 key hkey),
    fun key row hrow hr => h'.2 key row (h.2 key row hrow hr) hr⟩
  mono hG h := ⟨fun key hkey => h.1 key (hG hkey), h.2⟩
  valid := by
    rintro H t t' l hl hvalid h key rfl
    exact (h.1 key hl).trans (hvalid key rfl)
  apply w h := ⟨fun key hkey => keys_apply_congr w (h.1 key hkey), h.2.apply w⟩
  commit {G H P t} hP hvalid hG := by
    refine ⟨fun key hkey => keys_applyAll_of_covered hP (Set.disjoint_left.mp hG hkey) t,
      fun key row hrow hr => ?_⟩
    -- a key with a response was there before, so it is not one the transaction has inserted
    have hkey : Lock.key key ∉ H := fun hl => by
      have hnone := hvalid _ hl key rfl
      rw [hnone] at hrow
      cases hrow
    rw [keys_applyAll_of_covered hP hkey]
    exact hrow

/-! ## Statements -/

/-- The statement does not change the row of a key. -/
def keyFree : Sql → Bool
  | .insertKey .. | .updateKey .. => false
  | _ => true

variable {key : Option String} {e : Endpoint} {now : ℕ} {H : Set Lock} {P : List Change} {t : Tables}

theorem writes_of_keyFree {o : Sql} (h : keyFree o = true) (now : ℕ) (t : Tables) :
    ∀ w ∈ columns.writes o now t, w.isKey = false := by
  intro w hw
  cases o with
  | insertKey | updateKey => cases h
  | getKey | lockPurchase => cases hw
  | insertPurchase | updatePurchase =>
    simp only [columns, Sql.writes] at hw
    split_ifs at hw
    · rw [List.mem_singleton.mp hw]
      rfl
    · cases hw
  | plain o hfree =>
    obtain ⟨w, -, rfl⟩ := List.mem_map.mp hw
    rfl

theorem locks_of_keyFree {o : Sql} (h : keyFree o = true) (t : Tables) :
    ∀ l ∈ columns.locks o t, ∀ key, l ≠ .key key := by
  rintro l hl key rfl
  cases o with
  | insertKey | updateKey => cases h
  | getKey => cases hl
  | lockPurchase purchaseId walletId =>
    simp only [columns, Sql.read, Stmt.locks] at hl
    split at hl <;> simp at hl
  | insertPurchase | updatePurchase =>
    simp only [columns, Sql.read, Stmt.locks] at hl
    split_ifs at hl <;> simp at hl
  | plain o hfree =>
    cases o with
    | insertKey | getKey | updateKey | lockPurchase | insertPurchase | updatePurchase => cases hfree
    | getWallet | getUsage | countRedemptions | selectOperations => cases hl
    | incrementUsage code maxUses =>
      simp only [columns, Sql.read, Stmt.locks] at hl
      split at hl <;> simp at hl
    | _ =>
      simp only [columns, Sql.read, Stmt.locks] at hl
      split_ifs at hl <;> simp at hl

/-- The transaction has inserted the key for the endpoint, and holds its lock. -/
def Inserted (key : Option String) (e : Endpoint) (H : Set Lock) (P : List Change) : Prop :=
  (∀ k ∈ key, Lock.key k ∈ H) ∧ Claimed key e P

/-- Statements on other rows leave the key inserted. -/
theorem ensures_of_all {α : Type} {p : Tx α} (hp : p.All fun o => keyFree o = true)
    (hP : Inserted key e H P) :
    keyLocks.Ensures now p H P (fun _ H' P' _ => Inserted key e H' P') t := by
  induction p generalizing H P t with
  | ret a => exact fun _ _ => hP
  | raise err => trivial
  | stmt o k ih =>
    intro t' ht'
    have hwrites := writes_of_keyFree hp.1 now (columns.applyAll t' P)
    refine ⟨fun w hw => ?_, fun l hl => .inr fun key hkey => ?_, ih _ (hp.2 _) ⟨fun k hk => ?_, ?_⟩⟩
    · have hfree := hwrites w hw
      cases w with
      | putKey => cases hfree
      | addPurchase | putPurchase | plain => exact Set.empty_subset _
    · exact absurd hkey (locks_of_keyFree hp.1 _ l hl key)
    · exact .inl (hP.1 k hk)
    · exact hP.2.append hwrites

/-- A sequence that begins with statements on other rows. -/
theorem Inserted.bind {α β : Type} {p : Tx α} {f : α → Tx β}
    {Q : β → Set Lock → List Change → Tables → Prop} (hP : Inserted key e H P)
    (hp : p.All fun o => keyFree o = true)
    (hf : ∀ a H P t, Inserted key e H P → keyLocks.Ensures now (f a) H P Q t) :
    keyLocks.Ensures now (p >>= f) H P Q t :=
  (ensures_of_all hp hP).bind hf

/-- The dict is what the text is loaded as that the key has for its response. -/
def Stored (key : Option String) (e : Endpoint) (dict : Json) (t : Tables) : Prop :=
  ∀ k ∈ key, ∃ row response, t.keys k = some row ∧ row.endpoint = e ∧ row.response = some response ∧
    response.value = dict

theorem Stored.remembered {dict : Json} {t' : Tables} (h : Stored key e dict t) (ht : Remembers t t') :
    Stored key e dict t' := by
  intro k hk
  obtain ⟨row, response, hrow, he, hresponse, hdict⟩ := h k hk
  exact ⟨row, response, ht k row hrow (by rw [hresponse]; rfl), he, hresponse, hdict⟩

theorem remembers_applyAll {t' : Tables} (h : Remembers t t') (P : List Change) :
    Remembers (columns.applyAll t P) (columns.applyAll t' P) := by
  induction P generalizing t t' with
  | nil => exact h
  | cons w P ih => exact ih (h.apply w)

/-- The rule of looking up a key: a row that has its response is still there when the key is used. -/
theorem ensures_getKey {k : String} :
    keyLocks.Ensures now (sql (.getKey k)) H [] (fun found _ P t => P = [] ∧
      ∀ row : KeyRow, found = some row → row.response.isSome → t.keys k = some row) t := by
  intro t' ht'
  refine ⟨fun w hw => absurd hw List.not_mem_nil, fun l hl => absurd hl List.not_mem_nil, ?_⟩
  exact fun t₁ ht₁ => ⟨rfl, fun row hrow hresponse => ht₁.2 k row hrow hresponse⟩

/-- The rule of claiming a key. -/
theorem ensures_claimIdempotency (walletId : UUID) (hash : String) :
    keyLocks.Ensures now (claimIdempotency key walletId e hash) ∅ [] (fun replay H P t =>
      replay.elim (Inserted key e H P) fun dict => P = [] ∧ Stored key e dict t) t := by
  cases key with
  | none => exact fun _ _ => ⟨fun k hk => (by cases hk), fun k hk => (by cases hk)⟩
  | some key =>
    intro t' ht'
    let row : KeyRow := { walletId, endpoint := e, requestHash := hash }
    show (∀ w ∈ columns.writes (.insertKey key row) now t', _) ∧
      (∀ l ∈ columns.locks (.insertKey key row) t', _) ∧
      keyLocks.Ensures now (if columns.answer (.insertKey key row) t' = true then _ else _)
        (∅ ∪ {l | l ∈ columns.locks (.insertKey key row) t'})
        ([] ++ columns.writes (.insertKey key row) now t') _ t'
    cases hkey : t'.keys key with
    | none =>
      have hanswer : columns.answer (.insertKey key row) t' = true := by
        simp [columns, Sql.answer, hkey]
      have hwrites : columns.writes (.insertKey key row) now t' = [.putKey key row] := by
        simp [columns, Sql.writes, hkey]
      have hlocks : columns.locks (.insertKey key row) t' = [.key key] := by
        simp [columns, Sql.read, Stmt.locks, Tables.read, hkey]
      rw [if_pos hanswer, hwrites, hlocks]
      refine ⟨fun w hw l hl => .inr ?_, fun l hl => .inr fun key' hl' => ?_, fun t'' _ => ⟨?_, ?_⟩⟩
      · show l ∈ columns.locks (.insertKey key row) t'
        rw [List.mem_singleton.mp hw] at hl
        rw [hlocks]
        exact List.mem_singleton.mpr hl
      · obtain rfl : key = key' := Lock.key.inj ((List.mem_singleton.mp hl).symm.trans hl')
        exact hkey
      · rintro k ⟨⟩
        exact .inr (List.mem_singleton.mpr rfl)
      · rintro k ⟨⟩ s
        exact ⟨row, Function.update_self .., rfl⟩
    | some existing =>
      have hanswer : ¬columns.answer (.insertKey key row) t' = true := by
        simp [columns, Sql.answer, hkey]
      have hwrites : columns.writes (.insertKey key row) now t' = [] := by
        simp [columns, Sql.writes, hkey]
      have hlocks : columns.locks (.insertKey key row) t' = [] := by
        simp [columns, Sql.read, Stmt.locks, Tables.read, hkey]
      rw [if_neg hanswer, hwrites, hlocks]
      refine ⟨fun w hw => absurd hw List.not_mem_nil, fun l hl => absurd hl List.not_mem_nil, ?_⟩
      -- the row is looked up in a statement of its own
      refine ensures_getKey.bind fun found H P t₁ h => ?_
      obtain ⟨rfl, hfound⟩ := h
      cases found with
      | none => trivial
      | some existing =>
        show keyLocks.Ensures now (if existing.endpoint ≠ e ∨ existing.requestHash ≠ hash then _ else _)
          _ [] _ t₁
        split_ifs with hother
        · trivial
        · obtain ⟨he, -⟩ := not_or.mp hother
          cases hresponse : existing.response with
          | none => trivial
          | some response =>
            have hrow : t₁.keys key = some existing := hfound existing rfl (by rw [hresponse]; rfl)
            have hstored : Stored (some key) e response.value t₁ := by
              rintro k ⟨⟩
              exact ⟨existing, response, hrow, not_not.mp he, hresponse, rfl⟩
            exact fun t₂ ht₂ => ⟨rfl, hstored.remembered ht₂.2⟩

/-- The rule of looking up a key that has been inserted. -/
theorem Inserted.ensures_getKey {k : String} (hP : Inserted (some k) e H P) :
    keyLocks.Ensures now (sql (.getKey k)) H P (fun record H' P' _ =>
      Inserted (some k) e H' P' ∧ ∃ row : KeyRow, record = some row ∧ row.endpoint = e) t := by
  intro t' ht'
  refine ⟨fun w hw => absurd hw List.not_mem_nil, fun l hl => absurd hl List.not_mem_nil,
    fun _ _ => ⟨?_, ?_⟩⟩
  · exact ⟨fun k' hk' => .inl (hP.1 k' hk'), hP.2.append fun w hw => absurd hw List.not_mem_nil⟩
  · obtain ⟨row, hrow, he⟩ := hP.2 k rfl t'
    exact ⟨row, hrow, he⟩

/-- The rule of updating a key that has been inserted. -/
theorem Inserted.ensures_updateKey {k : String} (hP : Inserted (some k) e H P) (row : KeyRow) :
    keyLocks.Ensures now (execute (sql (.updateKey k row))) H P
      (fun _ _ P _ => ∀ t, (columns.applyAll t P).keys k = some row) t := by
  intro t' ht'
  obtain ⟨existing, hexisting, -⟩ := hP.2 k rfl t'
  have hfound : (columns.applyAll t' P).read.keyError k = none := by
    simp [Store.keyError, Tables.read, hexisting]
  have hwrites : columns.writes (.updateKey k row) now (columns.applyAll t' P) = [.putKey k row] :=
    if_pos hfound
  have hlocks : columns.locks (.updateKey k row) (columns.applyAll t' P) = [.key k] := if_pos hfound
  have hupdated : columns.answer (.updateKey k row) (columns.applyAll t' P) = .ok () := by
    show okUnless ((columns.applyAll t' P).read.keyError k) = _
    rw [hfound]
    rfl
  have hlock : Lock.key k ∈ H := hP.1 k rfl
  dsimp only
  rw [hwrites, hlocks, hupdated]
  refine ⟨fun w hw l hl => .inl ?_, fun l hl => .inl ?_, fun _ _ t₂ => ?_⟩
  · rw [List.mem_singleton.mp hw] at hl
    rw [show l = .key k from hl]
    exact hlock
  · rw [List.mem_singleton.mp hl]
    exact hlock
  · rw [Engine.applyAll_append]
    exact Function.update_self ..

/-- The rule of storing a result: the dict is put into the row that has been inserted. -/
theorem Inserted.ensures_store (hP : Inserted key e H P) (payload : Json) :
    keyLocks.Ensures now (storeIdempotentResult key payload >>= fun _ => pure payload) H P
      (fun dict _ P t => Stored key e dict (columns.applyAll t P)) t := by
  cases key with
  | none => exact fun _ _ k hk => by cases hk
  | some key =>
    unfold storeIdempotentResult
    rw [Prog.bind_assoc]
    refine hP.ensures_getKey.bind fun record H P t h => ?_
    obtain ⟨hP, row, rfl, he⟩ := h
    refine (hP.ensures_updateKey _).bind fun _ _ P t hupdated t' ht' => ?_
    rintro k ⟨⟩
    exact ⟨_, _, hupdated t', he, rfl, JsonColumn.value_of payload⟩

/-! ## Operations -/

theorem all_lift {α : Type} {p : WalletUsers.Tx α} (hp : p.All fun o => bare o = true) :
    (lift p hp).All fun o => keyFree o = true := by
  induction p with
  | ret a => trivial
  | raise err => trivial
  | stmt o k ih => exact ⟨rfl, fun r => ih r (hp.2 r)⟩

theorem all_execute {statement : Tx (Except DatabaseError Unit)}
    (h : statement.All fun o => keyFree o = true) :
    (execute statement).All fun o => keyFree o = true := by
  refine Prog.all_bind h fun result => ?_
  cases result <;> trivial

theorem all_flushWallet (walletId : UUID) (wallet : LoadedWallet) :
    (flushWallet walletId wallet).All fun o => keyFree o = true := all_execute ⟨rfl, fun _ => trivial⟩

theorem all_recordOperation (id walletId : UUID) (wallet : LoadedWallet) (kind : OperationKind)
    (amount : Decimal) (purchaseId : Option UUID) :
    (recordOperation id walletId wallet kind amount purchaseId).All fun o => keyFree o = true :=
  all_execute ⟨rfl, fun _ => trivial⟩

theorem all_lockWallet (walletId : UUID) :
    (lockWallet walletId).All fun o => keyFree o = true := ⟨rfl, fun _ => trivial⟩

theorem all_operationWallet (walletId : UUID) (operationType : OperationType) :
    (operationWallet walletId operationType).All fun o => keyFree o = true := by
  refine Prog.all_bind (all_lockWallet walletId) fun wallet => ?_
  rcases wallet with _ | wallet
  · cases operationType with
    | withdraw => trivial
    | deposit =>
      refine ⟨rfl, fun inserted => ?_⟩
      show Prog.All _ (if _ then _ else _)
      split_ifs
      · trivial
      · refine Prog.all_bind (all_lockWallet walletId) fun existing => ?_
        cases existing <;> trivial
  · trivial

theorem all_ensureSpendable (walletId : UUID) (wallet : LoadedWallet) :
    (ensureSpendable walletId wallet).All fun o => keyFree o = true := by
  unfold ensureSpendable
  split_ifs <;> trivial

theorem all_credit (walletId : UUID) (wallet : LoadedWallet) (amount : Decimal) :
    (credit walletId wallet amount).All fun o => keyFree o = true := by
  unfold credit
  dsimp only
  split_ifs <;> trivial

theorem all_applyOperation (walletId : UUID) (wallet : LoadedWallet) (amount : Decimal)
    (operationType : OperationType) :
    (applyOperation walletId wallet amount operationType).All fun o => keyFree o = true := by
  cases operationType with
  | deposit => exact Prog.all_bind (all_credit walletId wallet amount) fun _ => trivial
  | withdraw =>
    refine Prog.all_bind (all_ensureSpendable walletId wallet) fun _ => ?_
    show Prog.All _ (if _ then _ else _)
    split_ifs <;> trivial

/-- An operation with a key: what it returns is in the row of the key. -/
theorem ensures_keyed {walletId : UUID} {hash : String} {work : Tx Json}
    (hwork : ∀ H P t, Inserted key e H P →
      keyLocks.Ensures now work H P (fun dict _ P t => Stored key e dict (columns.applyAll t P)) t) :
    keyLocks.Ensures now (claimIdempotency key walletId e hash >>= fun replay =>
        match replay with
        | some replay => pure replay
        | none => work) ∅ []
      (fun dict _ P t => Stored key e dict (columns.applyAll t P)) t := by
  refine (ensures_claimIdempotency walletId hash).bind fun replay H P t h => ?_
  cases replay with
  | none => exact hwork H P t h
  | some dict =>
    obtain ⟨rfl, hstored⟩ := h
    exact fun t' ht' => hstored.remembered ht'.2

theorem ensures_performOperation (walletId : UUID) (operationType : OperationType) (amount : Decimal)
    (hash : String) (operationId : UUID) :
    keyLocks.Ensures now (performOperation walletId operationType amount key hash operationId) ∅ []
      (fun dict _ P t => Stored key .operation dict (columns.applyAll t P)) t := by
  refine ensures_keyed fun H P t hP => ?_
  refine hP.bind (all_operationWallet walletId operationType) fun wallet H P t hP => ?_
  refine hP.bind (all_applyOperation walletId wallet amount operationType) fun x H P t hP => ?_
  refine hP.bind (all_flushWallet walletId x.1) fun _ H P t hP => ?_
  refine hP.bind (all_recordOperation operationId walletId x.1 x.2.1 x.2.2 none) fun _ H P t hP => ?_
  exact hP.ensures_store _

theorem ensures_purchase (walletId : UUID) (totals : CartTotals) (promo : Option Promo)
    (items : List CartLine) (hash : String) (ids : PurchaseIds) :
    keyLocks.Ensures now (purchase walletId totals promo items key hash ids) ∅ []
      (fun dict _ P t => Stored key .purchase dict (columns.applyAll t P)) t := by
  refine ensures_keyed fun H P t hP => ?_
  refine hP.bind (all_lift _) fun _ H P t hP => ?_
  refine hP.bind (all_lockWallet walletId) fun wallet H P t hP => ?_
  cases wallet with
  | none => trivial
  | some wallet =>
    refine hP.bind (all_ensureSpendable walletId wallet) fun _ H P t hP => ?_
    show keyLocks.Ensures now (if _ then _ else _) _ _ _ _
    split_ifs
    · trivial
    refine hP.bind (all_flushWallet _ _) fun _ H P t hP => ?_
    refine hP.bind (all_execute ⟨rfl, fun _ => trivial⟩) fun _ H P t hP => ?_
    refine hP.bind (all_lift _) fun _ H P t hP => ?_
    refine hP.bind (all_recordOperation _ _ _ _ _ _) fun _ H P t hP => ?_
    exact hP.ensures_store _

theorem ensures_refund (walletId purchaseId : UUID) (amount : Option Decimal) (hash : String)
    (operationId : UUID) :
    keyLocks.Ensures now (refund walletId purchaseId amount key hash operationId) ∅ []
      (fun dict _ P t => Stored key .refund dict (columns.applyAll t P)) t := by
  refine ensures_keyed fun H P t hP => ?_
  refine hP.bind ⟨rfl, fun _ => trivial⟩ fun record H P t hP => ?_
  cases record with
  | none => trivial
  | some record =>
    show keyLocks.Ensures now (if _ then _ else _) _ _ _ _
    split_ifs
    · trivial
    refine hP.bind (all_lockWallet walletId) fun wallet H P t hP => ?_
    cases wallet with
    | none => trivial
    | some wallet =>
      refine hP.bind (all_credit _ _ _) fun _ H P t hP => ?_
      refine hP.bind (all_flushWallet _ _) fun _ H P t hP => ?_
      refine hP.bind (all_execute ⟨rfl, fun _ => trivial⟩) fun _ H P t hP => ?_
      refine hP.bind (all_recordOperation _ _ _ _ _ _) fun _ H P t hP => ?_
      exact hP.ensures_store _

/-! ## Requests -/

variable {service : Service}

/-- The answer is what the response of the request's key is validated into. -/
def Backed (request : Request) (a : Answer) (t : Tables) : Prop :=
  ∀ k ∈ request.key, ∃ row response, t.keys k = some row ∧ row.response = some response ∧
    a = .ofDict request.walletUuid row.endpoint response.value

theorem Stored.backed {request : Request} {dict : Json} {w : UUID} (hw : request.walletUuid = w)
    (h : Stored request.key e dict t) : Backed request (.ofDict w e dict) t := by
  intro k hk
  obtain ⟨row, response, hrow, rfl, hresponse, rfl⟩ := h k hk
  exact ⟨row, response, hrow, hresponse, by rw [hw]⟩

/-- A request without a key changes no row of a key. -/
theorem ensures_free {request : Request} {p : Tx Answer} (hkey : request.key = none)
    (hp : p.All fun o => keyFree o = true) :
    keyLocks.Ensures now p ∅ [] (fun a _ P t => Backed request a (columns.applyAll t P)) t := by
  have hP : Inserted none .operation ∅ [] := ⟨fun k hk => (by cases hk), fun k hk => (by cases hk)⟩
  refine (ensures_of_all hp hP).mono fun a H P t _ k hk => ?_
  rw [hkey] at hk
  cases hk

theorem ensures_orRaise {α β : Type} {x : Except Err α} {f : α → Tx β}
    {Q : β → Set Lock → List Change → Tables → Prop}
    (hf : ∀ a, keyLocks.Ensures now (f a) H P Q t) :
    keyLocks.Ensures now (orRaise x >>= f) H P Q t := by
  cases x with
  | error err => trivial
  | ok a => exact hf a

theorem all_orRaise {α : Type} (x : Except Err α) : (orRaise x).All fun o => keyFree o = true := by
  cases x <;> trivial

theorem all_getBalance (walletId : UUID) : (getBalance walletId).All fun o => keyFree o = true := by
  refine ⟨rfl, fun wallet => ?_⟩
  cases wallet <;> trivial

theorem all_setStatus (walletId : UUID) (status : WalletStatus) :
    (setStatus walletId status).All fun o => keyFree o = true := by
  refine Prog.all_bind (all_lockWallet walletId) fun wallet => ?_
  cases wallet with
  | none => trivial
  | some wallet => exact Prog.all_bind (all_flushWallet _ _) fun _ => trivial

theorem all_checkPurchase (moment : DateTime) (walletUuid : UUID) (payload : PurchaseRequest) :
    (checkPurchase service moment walletUuid payload).All fun o => keyFree o = true := by
  refine Prog.all_bind (all_orRaise _) fun promo => Prog.all_bind (all_lift _) fun uses => ?_
  refine Prog.all_bind (all_orRaise _) fun subtotal => Prog.all_bind (all_orRaise _) fun totals => ?_
  exact Prog.all_bind (all_getBalance walletUuid) fun _ => trivial

/-- The rule of an endpoint with a key: it answers what its operation has returned. -/
theorem ensures_answer (request : Request) {p : Tx Json}
    (hp : keyLocks.Ensures now p H P
      (fun dict _ P t => Stored request.key e dict (columns.applyAll t P)) t) :
    keyLocks.Ensures now (p >>= fun dict => pure (.ofDict request.walletUuid e dict)) H P
      (fun a _ P t => Backed request a (columns.applyAll t P)) t :=
  hp.bind fun _ _ P _ h _ ht' => (h.remembered (remembers_applyAll ht'.2 P)).backed rfl

/-- Every endpoint answers what the row of its key is validated into. -/
theorem ensures_endpoint (moment : DateTime) (ids : PurchaseIds) (request : Request) :
    keyLocks.Ensures now (endpoint service moment ids request) ∅ []
      (fun a _ P t => Backed request a (columns.applyAll t P)) t := by
  cases request with
  | changeBalance walletUuid payload key =>
    exact ensures_answer (.changeBalance walletUuid payload key)
      (ensures_performOperation walletUuid _ _ _ _)
  | readBalance walletUuid =>
    exact ensures_free rfl (Prog.all_bind (all_getBalance walletUuid) fun _ => trivial)
  | readHistory walletUuid limit offset =>
    exact ensures_free rfl (Prog.all_bind (all_lift _) fun _ =>
      Prog.all_bind (all_orRaise _) fun _ => trivial)
  | changeStatus walletUuid status =>
    exact ensures_free rfl (Prog.all_bind (all_setStatus walletUuid status) fun _ => trivial)
  | makePurchase walletUuid payload key =>
    refine ensures_orRaise fun promo => ensures_orRaise fun subtotal => ensures_orRaise fun totals =>
      ensures_orRaise fun _ => ?_
    exact ensures_answer (.makePurchase walletUuid payload key)
      (ensures_purchase walletUuid _ _ _ _ _)
  | checkPurchase walletUuid payload => exact ensures_free rfl (all_checkPurchase _ _ _)
  | refundPurchase walletUuid purchaseId payload key =>
    exact ensures_answer (.refundPurchase walletUuid purchaseId payload key)
      (ensures_refund walletUuid _ _ _ _)

theorem ensures_session (a : Arrival) (now : ℕ) (t : Tables) :
    keyLocks.Ensures now (session service a) ∅ []
      (fun answer _ P t => Backed a.request answer (columns.applyAll t P)) t := by
  unfold session
  split_ifs
  · exact (ensures_endpoint a.moment a.ids a.request).discard
  · exact (ensures_endpoint a.moment a.ids a.request).attempt

/-! ## Runs -/

variable {ι : Type} [DecidableEq ι] {arrivals : ι → Arrival} {i j : ι} {t₀ : Tables} {a b : Answer}
  {c c' : Config Tables Sql Sql.Res Change Lock ι (Option (Except Error Answer)) Answer}

/-- Every answer is what the row of its key is validated into. -/
theorem backed_of_finished (hsteps : Steps columns (sessions service arrivals) (.initial t₀) c)
    (hp : c.phase i = .finished (.ok a)) : Backed (arrivals i).request a c.store := by
  obtain ⟨t, H, P, hbacked, hlater⟩ := ensured_of_finished (D := keyLocks)
    (Q := fun i answer _ P t => Backed (arrivals i).request answer (columns.applyAll t P))
    (fun i now t => ensures_session (arrivals i) now t) hsteps hp
  intro k hk
  obtain ⟨row, response, hrow, hresponse, ha⟩ := hbacked k hk
  exact ⟨row, response, hlater.2 k row hrow (by rw [hresponse]; rfl), hresponse, ha⟩

/-- A response that is stored is never rewritten. -/
theorem remembers_of_steps (hsteps : Steps columns (sessions service arrivals) (.initial t₀) c)
    (hlater : Steps columns (sessions service arrivals) c c') : Remembers c.store c'.store :=
  (later_of_steps (fun i now t => ensures_session (arrivals i) now t) hsteps hlater).2

/-- What is answered under a key is the record that the text of its row is validated into. -/
theorem answered_of_finished (hlegible : t₀.Legible)
    (hsteps : Steps columns (sessions service arrivals) (.initial t₀) c) {k : String}
    (hk : (arrivals i).request.key = some k) (hp : c.phase i = .finished (.ok a)) :
    ∃ row response record, c.store.keys k = some row ∧ row.response = some response ∧
      Record.read row.endpoint response.value = some record ∧
      ∀ j b, (arrivals j).request.key = some k → c.phase j = .finished (.ok b) →
        b = .result (arrivals j).request.walletUuid record := by
  obtain ⟨row, response, hrow, hresponse, -⟩ := backed_of_finished hsteps hp k hk
  obtain ⟨d, -, hrep⟩ := (represents_initial hlegible).steps (implements_sessions service arrivals) hsteps
  obtain ⟨record, hrecord, -⟩ := hrep.ok.keys k row hrow response hresponse
  refine ⟨row, response, record, hrow, hresponse, hrecord, fun j b hj hb => ?_⟩
  obtain ⟨row', response', hrow', hresponse', rfl⟩ := backed_of_finished hsteps hb k hj
  obtain rfl : row = row' := Option.some.inj (hrow.symm.trans hrow')
  obtain rfl : response = response' := Option.some.inj (hresponse.symm.trans hresponse')
  unfold Answer.ofDict
  rw [hrecord]

/-- **One key, one answer.**  However the statements of concurrent requests interleave, and wherever some
of them lose the database, whatever is answered under a key is the one record that the JSON text of its
row is validated into: the same ids, and the same amounts digit for digit.  A response that is stored,
by these requests or before them, is in its row in every state from there on. -/
theorem one_answer (service : Service) (arrivals : ι → Arrival) (hlegible : t₀.Legible)
    (hsteps : Steps columns (sessions service arrivals) (.initial t₀) c) :
    (∀ i a k, (arrivals i).request.key = some k → c.phase i = .finished (.ok a) →
      ∃ row response record, c.store.keys k = some row ∧ row.response = some response ∧
        Record.read row.endpoint response.value = some record ∧
        ∀ j b, (arrivals j).request.key = some k → c.phase j = .finished (.ok b) →
          b = .result (arrivals j).request.walletUuid record) ∧
    ∀ c', Steps columns (sessions service arrivals) c c' → Remembers c.store c'.store :=
  ⟨fun _ _ _ hk hp => answered_of_finished hlegible hsteps hk hp,
    fun _ hlater => remembers_of_steps hsteps hlater⟩

/-- A deposit, and a retry while it is under way: both are answered with the balance in the row, which has
one decimal place as the amount has, and which the retry leaves as it finds it. -/
theorem one_answer_of_retry :
    let amount : Amount := ⟨⟨50, -1⟩, by decide, by decide, by decide⟩
    let arrivals : Fin 2 → Arrival := fun i => {
      moment := 0, ids := ⟨BitVec.ofNat 128 i, 1, BitVec.ofNat 128 i⟩
      request := .changeBalance 7 ⟨.deposit, amount⟩ (some "k") }
    ∃ c c' row response, runSchedule columns (sessions (deployed id) arrivals) (.initial .empty)
        ([0, 0, 1] ++ List.replicate 7 0) = some c ∧
      runSchedule columns (sessions (deployed id) arrivals) c [1, 1, 1] = some c' ∧
      c.phase 0 = .finished (.ok (.result 7 (.balance ⟨50, -1⟩))) ∧
      c'.phase 1 = .finished (.ok (.result 7 (.balance ⟨50, -1⟩))) ∧
      c.store.keys "k" = some row ∧ row.response = some response ∧
      Record.read row.endpoint response.value = some (.balance ⟨50, -1⟩) ∧
      c'.store.keys "k" = some row := by
  intro amount arrivals
  have hrun : (runSchedule columns (sessions (deployed id) arrivals) (.initial .empty)
      ([0, 0, 1] ++ List.replicate 7 0)).any (fun c => decide (
        (c.phase 0).outcome = some (.ok (.result 7 (.balance ⟨50, -1⟩)))) &&
      (runSchedule columns (sessions (deployed id) arrivals) c [1, 1, 1]).any fun c' => decide (
        (c'.phase 1).outcome = some (.ok (.result 7 (.balance ⟨50, -1⟩))))) = true := by
    decide +kernel
  obtain ⟨c, hc, hdec⟩ := (Option.any_eq_true _ _).mp hrun
  obtain ⟨hfirst, hretry⟩ := Bool.and_eq_true_iff.mp hdec
  obtain ⟨c', hc', hdec'⟩ := (Option.any_eq_true _ _).mp hretry
  have hp : c.phase 0 = .finished (.ok (.result 7 (.balance ⟨50, -1⟩))) :=
    Phase.outcome_eq_some.mp (of_decide_eq_true hfirst)
  obtain ⟨hanswer, hremembers⟩ := one_answer (deployed id) arrivals Tables.legible_empty
    (steps_of_runSchedule hc)
  obtain ⟨row, response, record, hrow, hresponse, hrecord, hsame⟩ := hanswer 0 _ "k" rfl hp
  cases hsame 0 _ rfl hp
  refine ⟨c, c', row, response, hc, hc', hp, Phase.outcome_eq_some.mp (of_decide_eq_true hdec'), hrow,
    hresponse, hrecord, ?_⟩
  exact hremembers c' (steps_of_runSchedule hc') "k" row hrow (by rw [hresponse]; rfl)

end WalletUsers.Columns

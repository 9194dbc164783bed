import WalletUsers.Columns.Api

/-!
# The operations, in decimals and in cents

Every operation of `WalletUsers.Columns.Crud` implements the one of `WalletUsers.Crud`: its amounts
stand for whole cents (`InCents`), as every sum of a few of them is within the 28 digits of the decimal
context, and the row that a transaction stores its result in is the one it has claimed (`Claimed`).
-/

namespace WalletUsers.Columns

open Python Txn Decimal

/-! ## Whole cents -/

/-- The decimal stands for `n` cents. -/
def InCents (d : Decimal) (n : ℤ) : Prop := d.toRat = n * 10 ^ (-2 : ℤ)

namespace InCents

variable {a b d : Decimal} {m n : ℤ}

theorem ofCents (n : ℤ) : InCents (.ofCents n) n := toRat_ofCents n

theorem of_isCents (h : d.IsCents) : InCents d d.cents := toRat_eq_cents h

theorem isCents (h : InCents d n) : d.IsCents := by
  intro he
  have hz : (10 : ℚ) ^ (-2 : ℤ) = 10 ^ (-2 - d.exp).toNat * 10 ^ d.exp := by
    rw [← zpow_natCast, ← zpow_add₀ (by norm_num)]
    congr 1
    omega
  have heq : (d.coef : ℚ) = n * 10 ^ (-2 - d.exp).toNat := by
    have hpos : (10 : ℚ) ^ d.exp ≠ 0 := zpow_ne_zero _ (by norm_num)
    refine mul_right_cancel₀ hpos ?_
    calc (d.coef : ℚ) * 10 ^ d.exp = n * 10 ^ (-2 : ℤ) := h
      _ = n * 10 ^ (-2 - d.exp).toNat * 10 ^ d.exp := by rw [hz, mul_assoc]
  have hint : d.coef = n * 10 ^ (-2 - d.exp).toNat := by exact_mod_cast heq
  exact hint ▸ Dvd.intro_left n rfl

theorem cents_eq (h : InCents d n) : d.cents = n := by
  have hpos : (10 : ℚ) ^ (-2 : ℤ) ≠ 0 := zpow_ne_zero _ (by norm_num)
  have heq := mul_right_cancel₀ hpos ((of_isCents h.isCents).symm.trans h)
  exact_mod_cast heq

theorem numeric_eq (h : InCents d n) : numeric d = n := by
  rw [numeric_eq_cents h.isCents, h.cents_eq]

theorem lt_iff (ha : InCents a m) (hb : InCents b n) : a < b ↔ m < n := by
  have hpos : (0 : ℚ) < 10 ^ (-2 : ℤ) := zpow_pos (by norm_num) _
  rw [Decimal.lt_iff, ha, hb, mul_lt_mul_iff_left₀ hpos, Int.cast_lt]

theorem add (ha : InCents a m) (hb : InCents b n) (h : (m + n).natAbs < 10 ^ prec) :
    InCents (a + b) (m + n) := by
  have hvalue : a.toRat + b.toRat = ((m + n : ℤ) : ℚ) * 10 ^ (-2 : ℤ) := by
    rw [ha, hb]
    push_cast
    ring
  unfold InCents
  rw [toRat_add (hvalue ▸ ⟨m + n, -2, h, rfl⟩), hvalue]

theorem sub (ha : InCents a m) (hb : InCents b n) (h : (m - n).natAbs < 10 ^ prec) :
    InCents (a - b) (m - n) := by
  have hvalue : toRat ⟨a.scaled (min a.exp b.exp) - b.scaled (min a.exp b.exp), min a.exp b.exp⟩ =
      ((m - n : ℤ) : ℚ) * 10 ^ (-2 : ℤ) := by
    have hsub : toRat ⟨a.scaled (min a.exp b.exp) - b.scaled (min a.exp b.exp), min a.exp b.exp⟩ =
        a.toRat - b.toRat := by
      rw [← toRat_scaled (min_le_left a.exp b.exp), ← toRat_scaled (min_le_right a.exp b.exp)]
      unfold toRat
      push_cast
      ring
    rw [hsub, ha, hb]
    push_cast
    ring
  exact (toRat_fix (hvalue ▸ ⟨m - n, -2, h, rfl⟩)).trans hvalue

theorem neg (ha : InCents a m) (h : m.natAbs < 10 ^ prec) : InCents (-a) (-m) := by
  have hvalue : toRat ⟨-a.coef, a.exp⟩ = ((-m : ℤ) : ℚ) * 10 ^ (-2 : ℤ) := by
    have hneg : toRat ⟨-a.coef, a.exp⟩ = -a.toRat := by
      unfold toRat
      push_cast
      ring
    rw [hneg, ha]
    push_cast
    ring
  exact (toRat_fix (hvalue ▸ ⟨-m, -2, by rwa [Int.natAbs_neg], rfl⟩)).trans hvalue

theorem zero : InCents (.ofInt 0) 0 := by
  unfold InCents
  rw [toRat_ofInt]
  simp

end InCents

/-- The exception says what the one in cents says. -/
inductive Reports : Error → Err → Prop
  | insufficientFunds {walletId required available m n} (hm : InCents required m)
      (hn : InCents available n) :
      Reports (.insufficientFunds walletId required available) (.insufficientFunds walletId m n)
  | refundNotAllowed {purchaseId requested remaining m n} (hm : InCents requested m)
      (hn : InCents remaining n) :
      Reports (.refundNotAllowed purchaseId requested remaining) (.refundNotAllowed purchaseId m n)
  | balanceLimit {walletId attempted n} (hn : InCents attempted n) :
      Reports (.balanceLimit walletId attempted) (.balanceLimit walletId n)
  | plain {err h} : Reports (.plain err h) err

theorem reports_of (err : Err) : Reports (.of err) err := by
  cases err with
  | insufficientFunds => exact .insufficientFunds (.ofCents _) (.ofCents _)
  | refundNotAllowed => exact .refundNotAllowed (.ofCents _) (.ofCents _)
  | balanceLimit => exact .balanceLimit (.ofCents _)
  | _ => exact .plain

/-! ## Statements -/

variable {key : Option String} {e : Endpoint} {now : ℕ} {P : List Change}

/-- The change is of the row of a key. -/
def Change.isKey : Change → Bool
  | putKey .. => true
  | _ => false

/-- The transaction has claimed the key for the endpoint. -/
def Claimed (key : Option String) (e : Endpoint) (P : List Change) : Prop :=
  ∀ k ∈ key, ∀ t, ∃ row, (columns.applyAll t P).keys k = some row ∧ row.endpoint = e

theorem keys_applyAll {ws : List Change} (h : ∀ w ∈ ws, w.isKey = false) (t : Tables) :
    (columns.applyAll t ws).keys = t.keys := by
  induction ws generalizing t with
  | nil => rfl
  | cons w ws ih =>
    have hw := h w List.mem_cons_self
    rw [Engine.applyAll_cons, ih fun w' hw' => h w' (List.mem_cons_of_mem _ hw')]
    cases w with
    | putKey => cases hw
    | addPurchase | putPurchase | plain => rfl

/-- Changes of other rows leave the claim. -/
theorem Claimed.append (h : Claimed key e P) {ws : List Change} (hws : ∀ w ∈ ws, w.isKey = false) :
    Claimed key e (P ++ ws) := by
  intro k hk t
  rw [Engine.applyAll_append, keys_applyAll hws]
  exact h k hk t

/-- The statement writes what keeps the tables legible. -/
def WritesStorable (o : Stmt) : Prop := ∀ id row, o = .insertWallet id row → Storable row.balance

theorem fit_plain {o : Stmt} (hfree : textFree o = true) (ho : WritesStorable o) (t : Tables) :
    ∀ w ∈ columns.writes (.plain o hfree) now t, w.Fit ∧ w.isKey = false := by
  intro w hmem
  obtain ⟨w, hw, rfl⟩ := List.mem_map.mp hmem
  clear hmem
  refine ⟨?_, rfl⟩
  cases o with
  | insertKey | getKey | updateKey | lockPurchase | insertPurchase | updatePurchase => cases hfree
  | getWallet | lockWallet | getUsage | countRedemptions | selectOperations => cases hw
  | insertWallet id row =>
    simp only [Stmt.writes] at hw
    split_ifs at hw
    · rw [List.mem_singleton.mp hw]
      exact ho id row rfl
    · cases hw
  | updateWallet id row =>
    simp only [Stmt.writes] at hw
    split_ifs at hw with herr
    · rw [List.mem_singleton.mp hw]
      by_contra hbig
      have hover : t.read.walletError id row = some .numericOverflow := if_pos hbig
      rw [hover] at herr
      cases herr
    · cases hw
  | insertUsage | insertRedemption | insertOperation =>
    simp only [Stmt.writes] at hw
    split_ifs at hw
    · rw [List.mem_singleton.mp hw]
      trivial
    · cases hw
  | incrementUsage code maxUses =>
    simp only [Stmt.writes] at hw
    split at hw
    · cases hw
    · split_ifs at hw
      · cases hw
      · rw [List.mem_singleton.mp hw]
        trivial

/-- The rule of a statement that involves no text: it has the same answer, and leaves the claim. -/
theorem implements_query {o : Stmt} (hfree : textFree o = true) (ho : WritesStorable o)
    (hP : Claimed key e P) : reading.Implements Reports now (query o hfree) (WalletUsers.query o) P
      fun r r' P' => r = r' ∧ (∃ t : Tables, t.Legible ∧ r = o.answer t.read) ∧ Claimed key e P' := by
  refine ⟨_, rfl, fun s hs => ⟨fun w hw => (fit_plain hfree ho _ w hw).1, _, rfl, rfl, ⟨_, hs, rfl⟩, ?_⟩⟩
  exact hP.append fun w hw => (fit_plain hfree ho _ w hw).2

theorem writesStorable_of_bare {o : Stmt} (h : bare o = true) : WritesStorable o := by
  rintro id row rfl
  cases h

/-- The rule of a transaction that involves neither amounts nor text. -/
theorem implements_lift {α : Type} {p : WalletUsers.Tx α} (hp : p.All fun o => bare o = true)
    (hP : Claimed key e P) :
    reading.Implements Reports now (lift p hp) p P fun a a' P' => a = a' ∧ Claimed key e P' := by
  induction p generalizing P with
  | ret a => exact ⟨a, rfl, rfl, hP⟩
  | raise err => exact ⟨err, rfl, reports_of err⟩
  | stmt o k ih =>
    have hfit : ∀ t : Tables, ∀ w ∈ columns.writes _ now t, w.Fit ∧ w.isKey = false :=
      fit_plain (textFree_of_bare hp.1) (writesStorable_of_bare hp.1)
    refine ⟨k, rfl, fun s hs => ⟨fun w hw => (hfit _ w hw).1, ?_⟩⟩
    exact ih _ (hp.2 _) (hP.append fun w hw => (hfit _ w hw).2)

/-! ## Loaded rows -/

/-- The loaded wallet is that of the row. -/
def Shows (wallet : LoadedWallet) (row : Wallet) : Prop :=
  InCents wallet.balance row.balance ∧ wallet.status = row.status

theorem shows_load (row : Wallet) : Shows (.load row) row := ⟨.ofCents row.balance, rfl⟩

theorem Shows.row_eq {wallet : LoadedWallet} {row : Wallet} (h : Shows wallet row) :
    wallet.row = row := by
  obtain ⟨balance, status⟩ := row
  obtain ⟨hbalance, rfl⟩ := h
  unfold LoadedWallet.row
  rw [hbalance.numeric_eq]

/-- A sum of a few amounts of the columns is within the digits of the context. -/
theorem small_of_le {n : ℤ} (h : |n| ≤ 8 * maxBalance) : n.natAbs < 10 ^ prec := by
  rw [Int.abs_eq_natAbs] at h
  unfold maxBalance at h
  unfold prec
  omega

theorem implements_execute {I : List Change → Prop} {statement : Tx (Except DatabaseError Unit)}
    {statement' : WalletUsers.Tx (Except DatabaseError Unit)}
    (h : reading.Implements Reports now statement statement' P fun r r' P' => r = r' ∧ I P') :
    reading.Implements Reports now (execute statement) (WalletUsers.execute statement') P
      fun _ _ P' => I P' := by
  refine h.bind fun r r' P' ⟨hr, hP'⟩ => ?_
  subst hr
  rcases r with err | u
  · exact ⟨_, rfl, .plain⟩
  · exact ⟨_, rfl, hP'⟩

theorem implements_flushWallet {wallet : LoadedWallet} {row : Wallet} (walletId : UUID)
    (h : Shows wallet row) (hP : Claimed key e P) :
    reading.Implements Reports now (flushWallet walletId wallet) (WalletUsers.flushWallet walletId row) P
      fun _ _ P' => Claimed key e P' := by
  unfold flushWallet
  rw [h.row_eq]
  refine implements_execute ((implements_query rfl (fun _ _ ho => by cases ho) hP).mono ?_)
  exact fun r r' P' hr => ⟨hr.1, hr.2.2⟩

theorem implements_recordOperation {wallet : LoadedWallet} {row : Wallet} {amount : Decimal} {n : ℤ}
    (id walletId : UUID) (kind : OperationKind) (purchaseId : Option UUID) (h : Shows wallet row)
    (hamount : InCents amount n) (hP : Claimed key e P) :
    reading.Implements Reports now (recordOperation id walletId wallet kind amount purchaseId)
      (WalletUsers.recordOperation id walletId row kind n purchaseId) P
      fun _ _ P' => Claimed key e P' := by
  unfold recordOperation
  rw [hamount.numeric_eq, h.1.numeric_eq]
  refine implements_execute ((implements_query rfl (fun _ _ ho => by cases ho) hP).mono ?_)
  exact fun r r' P' hr => ⟨hr.1, hr.2.2⟩

/-- A wallet is loaded as its row has it, with a balance that the column holds. -/
theorem rel_load {r : Option Wallet} {t : Tables} {walletId : UUID} (ht : t.Legible)
    (hr : r = t.wallets walletId) :
    Option.Rel (fun w row => Shows w row ∧ Storable row.balance) (r.map LoadedWallet.load) r := by
  cases r with
  | none => exact .none
  | some row => exact .some ⟨shows_load row, ht.wallets walletId row hr.symm⟩

theorem implements_lockWallet (walletId : UUID) (hP : Claimed key e P) :
    reading.Implements Reports now (lockWallet walletId) (WalletUsers.lockWallet walletId) P
      fun wallet row P' => Option.Rel (fun w row => Shows w row ∧ Storable row.balance) wallet row ∧
        Claimed key e P' := by
  refine ⟨_, rfl, fun s hs => ⟨fun w hw => ?_, _, rfl, rel_load hs rfl, ?_⟩⟩
  · cases hw
  · exact hP.append fun w hw => by cases hw

theorem implements_createWalletLocked (walletId : UUID) (hP : Claimed key e P) :
    reading.Implements Reports now (createWalletLocked walletId)
      (WalletUsers.createWalletLocked walletId) P
      fun wallet row P' => (Shows wallet row ∧ Storable row.balance) ∧ Claimed key e P' := by
  have hzero : Shows { balance := Decimal.ofInt 0 } { balance := 0 } := ⟨.zero, rfl⟩
  have hstorable : WritesStorable (.insertWallet walletId (LoadedWallet.row { balance := Decimal.ofInt 0 })) := by
    intro id row ho
    cases ho
    decide
  have hinsert : reading.Implements Reports now
      (query (.insertWallet walletId (LoadedWallet.row { balance := Decimal.ofInt 0 })))
      (WalletUsers.query (.insertWallet walletId { balance := 0 })) P _ :=
    implements_query rfl hstorable hP
  refine hinsert.bind fun inserted inserted' P' hq => ?_
  obtain ⟨rfl, -, hP'⟩ := hq
  cases inserted with
  | true => exact ⟨_, rfl, ⟨hzero, by decide⟩, hP'⟩
  | false =>
    refine (implements_lockWallet walletId hP').bind fun wallet row P'' hq => ?_
    obtain ⟨hrel, hP''⟩ := hq
    cases hrel with
    | none => exact ⟨_, rfl, .plain⟩
    | some h => exact ⟨_, rfl, h, hP''⟩

theorem implements_operationWallet (walletId : UUID) (operationType : OperationType)
    (hP : Claimed key e P) :
    reading.Implements Reports now (operationWallet walletId operationType)
      (WalletUsers.operationWallet walletId operationType) P
      fun wallet row P' => (Shows wallet row ∧ Storable row.balance) ∧ Claimed key e P' := by
  refine (implements_lockWallet walletId hP).bind fun wallet row P' hq => ?_
  obtain ⟨hrel, hP'⟩ := hq
  cases hrel with
  | some h => exact ⟨_, rfl, h, hP'⟩
  | none =>
    cases operationType with
    | withdraw => exact ⟨_, rfl, .plain⟩
    | deposit => exact implements_createWalletLocked walletId hP'

/-! ## Movements -/

theorem implements_ensureSpendable {wallet : LoadedWallet} {row : Wallet} (walletId : UUID)
    (h : Shows wallet row) (hP : Claimed key e P) :
    reading.Implements Reports now (ensureSpendable walletId wallet)
      (WalletUsers.ensureSpendable walletId row) P fun _ _ P' => Claimed key e P' := by
  unfold ensureSpendable WalletUsers.ensureSpendable
  rw [h.2]
  split_ifs
  · exact ⟨_, rfl, .plain⟩
  · exact ⟨_, rfl, hP⟩

theorem implements_credit {wallet : LoadedWallet} {row : Wallet} {amount : Decimal} {n : ℤ}
    (walletId : UUID) (h : Shows wallet row) (hrow : Storable row.balance)
    (hamount : InCents amount n) (hn : |n| ≤ 2 * maxBalance) (hP : Claimed key e P) :
    reading.Implements Reports now (credit walletId wallet amount) (WalletUsers.credit walletId row n) P
      fun wallet row P' => Shows wallet row ∧ Claimed key e P' := by
  have hsum : InCents (wallet.balance + amount) (row.balance + n) := by
    refine h.1.add hamount (small_of_le ?_)
    have habs := abs_add_le row.balance n
    unfold Storable at hrow
    unfold maxBalance at *
    omega
  have hlimit : Decimal.ofCents maxBalance < wallet.balance + amount ↔ row.balance + n > maxBalance :=
    InCents.lt_iff (.ofCents _) hsum
  unfold credit WalletUsers.credit
  simp only [hlimit]
  split_ifs
  · exact ⟨_, rfl, .balanceLimit hsum⟩
  · exact ⟨_, rfl, ⟨hsum, h.2⟩, hP⟩

theorem implements_applyOperation {wallet : LoadedWallet} {row : Wallet} (walletId : UUID)
    (amount : Amount) (operationType : OperationType) (h : Shows wallet row)
    (hrow : Storable row.balance) (hP : Claimed key e P) :
    reading.Implements Reports now (applyOperation walletId wallet amount.value operationType)
      (WalletUsers.applyOperation walletId row amount.cents operationType) P
      fun x x' P' => Shows x.1 x'.1 ∧ x.2.1 = x'.2.1 ∧ InCents x.2.2 x'.2.2 ∧ Claimed key e P' := by
  have hamount : InCents amount.value amount.cents := .of_isCents amount.isCents
  have hpos := amount.cents_pos
  have hle : amount.cents ≤ maxBalance := amount.bounded
  have habs : |amount.cents| = amount.cents := abs_of_pos hpos
  cases operationType with
  | deposit =>
    refine (implements_credit walletId h hrow hamount (by omega) hP).bind fun wallet row P' hq => ?_
    exact ⟨_, rfl, hq.1, rfl, hamount, hq.2⟩
  | withdraw =>
    refine (implements_ensureSpendable walletId h hP).bind fun _ _ P' hP' => ?_
    simp only [h.1.lt_iff hamount]
    split_ifs with hfunds
    · exact ⟨_, rfl, .insufficientFunds hamount h.1⟩
    · have hdiff : |row.balance - amount.cents| ≤ 8 * maxBalance := by
        unfold Storable at hrow
        rw [abs_le] at hrow ⊢
        unfold maxBalance at *
        omega
      exact ⟨_, rfl, ⟨h.1.sub hamount (small_of_le hdiff), h.2⟩, rfl,
        hamount.neg (small_of_le (by omega)), hP'⟩

/-! ## Idempotency keys -/

/-- The dict is one of the endpoint, with the amounts of the payload. -/
def Replays (e : Endpoint) (dict : Json) (payload : Payload) : Prop :=
  ∃ r, Record.read e dict = some r ∧ r.Exact ∧ r.payload = payload

theorem replays_dict {r : Record} {payload : Payload} (h : r.Exact) (he : r.endpoint = e)
    (hpayload : r.payload = payload) : Replays e r.dict payload := by
  subst he
  exact ⟨r, r.read_dict, h, hpayload⟩

/-- The rule of looking up a key. -/
theorem implements_getKey (key : String) :
    reading.Implements Reports now (sql (.getKey key)) (WalletUsers.query (.getKey key)) P
      fun r r' P' => r' = r.map KeyRow.read ∧ P' = P ∧
        ∃ t, (columns.applyAll t P).Legible ∧ r = (columns.applyAll t P).keys key :=
  ⟨_, rfl, fun t ht => ⟨fun _ hw => absurd hw List.not_mem_nil, _, rfl, rfl, List.append_nil P,
    t, ht, rfl⟩⟩

theorem implements_claimIdempotency (key : Option String) (walletId : UUID) (e : Endpoint)
    (hash : String) :
    reading.Implements Reports now (claimIdempotency key walletId e hash)
      (WalletUsers.claimIdempotency key walletId e hash) []
      fun replay replay' P => Option.Rel (Replays e) replay replay' ∧
        (replay' = none → Claimed key e P) := by
  cases key with
  | none => exact ⟨_, rfl, .none, fun _ k hk => by cases hk⟩
  | some key =>
    let row : KeyRow := { walletId, endpoint := e, requestHash := hash }
    refine ⟨_, rfl, fun t ht => ⟨fun w hw => ?_, ?_⟩⟩
    · have hw' : t.keys key = none ∧ w = .putKey key row := by simpa [columns, Sql.writes] using hw
      rw [hw'.2]
      exact fun c hc => by cases hc
    rcases hkey : t.keys key with _ | existing
    · have hinsert : columns.answer (.insertKey key row) t = true := by
        simp [columns, Sql.answer, hkey]
      have hinsert' : postgres.answer (.insertKey key row.read) t.read = true := by
        simp [postgres, Stmt.answer, Tables.read, hkey]
      have hwrites : columns.writes (.insertKey key row) now t = [.putKey key row] := by
        simp [columns, Sql.writes, hkey]
      show reading.Implements Reports now (if columns.answer (.insertKey key row) t = true then _ else _)
        (if postgres.answer (.insertKey key row.read) t.read = true then _ else _)
        ([] ++ columns.writes (.insertKey key row) now t) _
      rw [if_pos hinsert, if_pos hinsert', hwrites]
      refine ⟨_, rfl, .none, fun _ k hk t' => ⟨row, ?_, rfl⟩⟩
      cases hk
      exact Function.update_self ..
    · have hinsert : ¬columns.answer (.insertKey key row) t = true := by
        simp [columns, Sql.answer, hkey]
      have hinsert' : ¬postgres.answer (.insertKey key row.read) t.read = true := by
        simp [postgres, Stmt.answer, Tables.read, hkey]
      show reading.Implements Reports now (if columns.answer (.insertKey key row) t = true then _ else _)
        (if postgres.answer (.insertKey key row.read) t.read = true then _ else _) _ _
      rw [if_neg hinsert, if_neg hinsert']
      refine (implements_getKey key).bind fun existing existing' P hq => ?_
      obtain ⟨rfl, -, t, ht, hrow⟩ := hq
      rcases existing with _ | existing
      · exact ⟨_, rfl, .plain⟩
      show reading.Implements Reports now (if existing.endpoint ≠ e ∨ existing.requestHash ≠ hash then _ else _)
        (if existing.endpoint ≠ e ∨ existing.requestHash ≠ hash then _ else _) _ _
      split_ifs with hother
      · exact ⟨_, rfl, .plain⟩
      obtain rfl : existing.endpoint = e := by
        by_contra hne
        exact hother (.inl hne)
      have hlegible := ht.keys key existing hrow.symm
      cases hresponse : existing.response with
      | none =>
        have hread : existing.read.response = none := by simp [KeyRow.read, hresponse]
        rw [hread]
        exact ⟨_, rfl, .plain⟩
      | some response =>
        obtain ⟨r, hr, hexact⟩ := hlegible response hresponse
        have hread : existing.read.response = some r.payload := by simp [KeyRow.read, hresponse, hr]
        rw [hread]
        exact ⟨_, rfl, .some ⟨r, hr, hexact, rfl⟩, fun h => by cases h⟩

theorem implements_storeIdempotentResult {dict : Json} {payload : Payload}
    (h : Replays e dict payload) (hP : Claimed key e P) :
    reading.Implements Reports now (storeIdempotentResult key dict)
      (WalletUsers.storeIdempotentResult key payload) P fun _ _ _ => True := by
  cases key with
  | none => exact ⟨_, rfl, trivial⟩
  | some key =>
    refine (implements_getKey key).bind fun record record' P' hq => ?_
    obtain ⟨rfl, rfl, t, ht, hrecord⟩ := hq
    obtain ⟨row, hrow, rfl⟩ := hP key rfl t
    rw [hrow] at hrecord
    subst hrecord
    obtain ⟨r, hread, hexact, rfl⟩ := h
    have hupdate : ({ row with response := some (.of dict) } : KeyRow).read =
        { row.read with response := some r.payload } := by
      simp [KeyRow.read, hread]
    show reading.Implements Reports now
      (execute (sql (.updateKey key { row with response := some (.of dict) })))
      (WalletUsers.execute (WalletUsers.query (.updateKey key { row.read with
        response := some r.payload }))) _ _
    rw [← hupdate]
    refine implements_execute (I := fun _ => True) ?_
    refine ⟨_, rfl, fun t' ht' => ⟨fun w hw => ?_, _, rfl, rfl, trivial⟩⟩
    have hw' : w = .putKey key { row with response := some (.of dict) } := by
      simp only [columns, Sql.writes] at hw
      split_ifs at hw
      · exact List.mem_singleton.mp hw
      · cases hw
    rw [hw']
    intro c hc
    cases hc
    exact ⟨r, by rwa [JsonColumn.value_of], hexact⟩

/-! ## Operations -/

theorem implements_performOperation (walletId : UUID) (operationType : OperationType)
    (amount : Amount) (key : Option String) (hash : String) (operationId : UUID) :
    reading.Implements Reports now
      (performOperation walletId operationType amount.value key hash operationId)
      (WalletUsers.performOperation walletId operationType amount.cents key hash operationId) []
      fun dict payload _ => Replays .operation dict payload := by
  refine (implements_claimIdempotency key walletId .operation hash).bind fun replay replay' P hq => ?_
  obtain ⟨hreplay, hclaim⟩ := hq
  cases hreplay with
  | some h => exact ⟨_, rfl, h⟩
  | none =>
    refine (implements_operationWallet walletId operationType (hclaim rfl)).bind
      fun wallet row P₁ ⟨⟨hshows, hrow⟩, hP₁⟩ => ?_
    refine (implements_applyOperation walletId amount operationType hshows hrow hP₁).bind
      fun x x' P₂ hq => ?_
    obtain ⟨wallet, kind, signed⟩ := x
    obtain ⟨row, kind', signed'⟩ := x'
    obtain ⟨hshows, rfl, hsigned, hP₂⟩ := hq
    refine (implements_flushWallet walletId hshows hP₂).bind fun _ _ P₃ hP₃ => ?_
    refine (implements_recordOperation operationId walletId kind none hshows hsigned hP₃).bind
      fun _ _ P₄ hP₄ => ?_
    have hreplays : Replays .operation (Record.balance wallet.balance).dict (.balance row.balance) := by
      refine replays_dict ?_ rfl (congrArg Payload.balance hshows.1.cents_eq)
      exact List.forall_mem_singleton.mpr hshows.1.isCents
    refine (implements_storeIdempotentResult hreplays hP₄).bind fun _ _ _ _ => ?_
    exact ⟨_, rfl, hreplays⟩

/-- The rule of writing the row of a purchase. -/
theorem implements_insertPurchase {row : PurchaseRow} (hP : Claimed key e P) :
    reading.Implements Reports now (execute (sql (.insertPurchase row)))
      (WalletUsers.execute (WalletUsers.query (.insertPurchase row.read))) P
      fun _ _ P' => Claimed key e P' := by
  refine implements_execute ⟨_, rfl, fun t ht => ?_⟩
  have hwrites : ∀ w ∈ columns.writes (.insertPurchase row) now (columns.applyAll t P),
      w = .addPurchase row ∧ ∀ x ∈ row.read.amounts, Storable x := by
    intro w hw
    simp only [columns, Sql.writes] at hw
    split_ifs at hw with herr
    · refine ⟨List.mem_singleton.mp hw, ?_⟩
      by_contra hbig
      rw [Store.purchaseError, if_pos hbig] at herr
      cases herr
    · cases hw
  refine ⟨fun w hw => ?_, _, rfl, rfl, hP.append fun w hw => ?_⟩
  · rw [(hwrites w hw).1]
    exact (hwrites w hw).2
  · rw [(hwrites w hw).1]
    rfl

theorem implements_updatePurchase {row : PurchaseRow} (hP : Claimed key e P) :
    reading.Implements Reports now (execute (sql (.updatePurchase row)))
      (WalletUsers.execute (WalletUsers.query (.updatePurchase row.read))) P
      fun _ _ P' => Claimed key e P' := by
  refine implements_execute ⟨_, rfl, fun t ht => ?_⟩
  have hwrites : ∀ w ∈ columns.writes (.updatePurchase row) now (columns.applyAll t P),
      w = .putPurchase row ∧ ∀ x ∈ row.read.amounts, Storable x := by
    intro w hw
    simp only [columns, Sql.writes] at hw
    split_ifs at hw with herr
    · refine ⟨List.mem_singleton.mp hw, ?_⟩
      by_contra hbig
      rw [Store.purchaseUpdateError, if_pos hbig] at herr
      cases herr
    · cases hw
  refine ⟨fun w hw => ?_, _, rfl, rfl, hP.append fun w hw => ?_⟩
  · rw [(hwrites w hw).1]
    exact (hwrites w hw).2
  · rw [(hwrites w hw).1]
    rfl

/-- The totals of a cart are in whole cents, and nothing is paid out. -/
structure Priced (totals : CartTotals) : Prop where
  subtotal : totals.subtotal.IsCents
  discount : totals.discount.IsCents
  total : totals.total.IsCents
  nonneg : 0 ≤ totals.total.cents

/-- The row of a purchase as it is inserted. -/
def chargedRow (totals : CartTotals) (id walletId : UUID) (promo : Option Promo)
    (items : List CartLine) : PurchaseRow where
  id := id
  walletId := walletId
  promoCode := promo.map (·.code)
  subtotal := numeric totals.subtotal
  discount := numeric totals.discount
  total := numeric totals.total
  refundedTotal := numeric (Decimal.ofInt 0)
  items := .of (linesDict items)

theorem Priced.read_chargedRow {totals : CartTotals} (h : Priced totals) (id walletId : UUID)
    (promo : Option Promo) (items : List CartLine) :
    (chargedRow totals id walletId promo items).read = {
      id, walletId, promoCode := promo.map (·.code), subtotal := totals.charge.subtotal,
      discount := totals.charge.discount, total := totals.charge.total, items } := by
  simp [chargedRow, PurchaseRow.read, readLines_linesDict, numeric_eq_cents h.subtotal,
    numeric_eq_cents h.discount, numeric_eq_cents h.total, InCents.zero.numeric_eq,
    CartTotals.charge]

theorem implements_purchase {totals : CartTotals} (htotals : Priced totals) (walletId : UUID)
    (promo : Option Promo) (items : List CartLine) (key : Option String) (hash : String)
    (ids : PurchaseIds) :
    reading.Implements Reports now (purchase walletId totals promo items key hash ids)
      (WalletUsers.purchase walletId totals.charge promo items key hash ids) []
      fun dict payload _ => Replays .purchase dict payload := by
  have htotal : InCents totals.total totals.charge.total := .of_isCents htotals.total
  refine (implements_claimIdempotency key walletId .purchase hash).bind fun replay replay' P hq => ?_
  obtain ⟨hreplay, hclaim⟩ := hq
  cases hreplay with
  | some h => exact ⟨_, rfl, h⟩
  | none =>
    refine (implements_lift (bare_claimCouponIfAny promo walletId) (hclaim rfl)).bind
      fun _ _ P₁ ⟨_, hP₁⟩ => ?_
    refine (implements_lockWallet walletId hP₁).bind fun wallet row P₂ ⟨hwallet, hP₂⟩ => ?_
    cases hwallet with
    | none => exact ⟨_, rfl, .plain⟩
    | @some wallet row hloaded =>
      obtain ⟨hshows, hrow⟩ := hloaded
      refine (implements_ensureSpendable walletId hshows hP₂).bind fun _ _ P₃ hP₃ => ?_
      simp only [hshows.1.lt_iff htotal]
      split_ifs with hfunds
      · exact ⟨_, rfl, .insufficientFunds htotal hshows.1⟩
      have hdiff : InCents (wallet.balance - totals.total) (row.balance - totals.charge.total) := by
        refine hshows.1.sub htotal (small_of_le ?_)
        have hnonneg : 0 ≤ totals.charge.total := htotals.nonneg
        unfold Storable at hrow
        rw [abs_le] at hrow ⊢
        unfold maxBalance at *
        omega
      have hafter : Shows { wallet with balance := wallet.balance - totals.total }
          { row with balance := row.balance - totals.charge.total } := ⟨hdiff, hshows.2⟩
      refine (implements_flushWallet walletId hafter hP₃).bind fun _ _ P₄ hP₄ => ?_
      have hinsert : reading.Implements Reports now (execute (sql (.insertPurchase (chargedRow totals ids.purchase
          walletId promo items)))) (WalletUsers.execute (WalletUsers.query (.insertPurchase {
            id := ids.purchase, walletId, promoCode := promo.map (·.code),
            subtotal := totals.charge.subtotal, discount := totals.charge.discount,
            total := totals.charge.total, items }))) P₄ _ :=
        htotals.read_chargedRow ids.purchase walletId promo items ▸ implements_insertPurchase hP₄
      refine hinsert.bind fun _ _ P₅ hP₅ => ?_
      refine (implements_lift (bare_redeemCoupon promo ids.redemption walletId ids.purchase) hP₅).bind
        fun _ _ P₆ ⟨_, hP₆⟩ => ?_
      have hneg : InCents (-totals.total) (-totals.charge.total) := by
        refine htotal.neg (small_of_le ?_)
        have hnonneg : 0 ≤ totals.charge.total := htotals.nonneg
        unfold Storable at hrow
        rw [abs_le] at hrow ⊢
        unfold maxBalance at *
        omega
      refine (implements_recordOperation ids.operation walletId .purchase (some ids.purchase) hafter hneg
        hP₆).bind fun _ _ P₇ hP₇ => ?_
      have hreplays : Replays .purchase (Record.purchase {
            purchaseId := ids.purchase, positions := items.length,
            itemsCount := (items.map (·.quantity)).sum, promoCode := promo.map (·.code),
            subtotal := totals.subtotal, discount := totals.discount, total := totals.total,
            balance := wallet.balance - totals.total }).dict (.purchase {
            purchaseId := ids.purchase, positions := items.length,
            itemsCount := (items.map (·.quantity)).sum, promoCode := promo.map (·.code),
            subtotal := totals.charge.subtotal, discount := totals.charge.discount,
            total := totals.charge.total, balance := row.balance - totals.charge.total }) := by
        refine replays_dict (fun d hd => ?_) rfl ?_
        · simp only [Record.amounts, List.mem_cons, List.not_mem_nil, or_false] at hd
          rcases hd with rfl | rfl | rfl | rfl
          · exact htotals.subtotal
          · exact htotals.discount
          · exact htotals.total
          · exact hdiff.isCents
        · unfold Record.payload
          dsimp only
          rw [hdiff.cents_eq]
          rfl
      refine (implements_storeIdempotentResult hreplays hP₇).bind fun _ _ _ _ => ?_
      exact ⟨_, rfl, hreplays⟩

/-! ### Refunds -/

theorem read_findPurchase (t : Tables) (purchaseId walletId : UUID) :
    ((t.read.findPurchase purchaseId).filter fun p => p.walletId = walletId) =
      (t.findPurchase purchaseId walletId).map PurchaseRow.read := by
  unfold Store.findPurchase Tables.findPurchase Tables.read
  rw [List.find?_map]
  show ((t.purchases.find? fun p => decide (p.id = purchaseId)).map PurchaseRow.read).filter _ = _
  generalize (t.purchases.find? fun p => decide (p.id = purchaseId)) = found
  rcases found with _ | p
  · rfl
  · by_cases hp : p.walletId = walletId <;> simp [Option.filter, hp, PurchaseRow.read]

/-- A refund locks the row of its purchase, whose amounts the columns hold. -/
theorem implements_lockPurchase (purchaseId walletId : UUID) (hP : Claimed key e P) :
    reading.Implements Reports now (sql (.lockPurchase purchaseId walletId))
      (WalletUsers.query (.lockPurchase purchaseId walletId)) P
      fun record record' P' => record' = record.map PurchaseRow.read ∧
        (∀ row ∈ record, ∀ x ∈ row.read.amounts, Storable x) ∧ Claimed key e P' := by
  refine ⟨_, rfl, fun t ht => ⟨fun _ hw => absurd hw List.not_mem_nil, _, rfl,
    read_findPurchase _ _ _, fun row hrow => ?_, hP.append fun _ hw => absurd hw List.not_mem_nil⟩⟩
  exact ht.purchases row (List.mem_of_find?_eq_some (Option.filter_eq_some_iff.mp hrow).1)

theorem implements_refund (walletId purchaseId : UUID) (amount : Option Amount) (key : Option String)
    (hash : String) (operationId : UUID) :
    reading.Implements Reports now
      (refund walletId purchaseId (amount.map Amount.value) key hash operationId)
      (WalletUsers.refund walletId purchaseId (amount.map Amount.cents) key hash operationId) []
      fun dict payload _ => Replays .refund dict payload := by
  refine (implements_claimIdempotency key walletId .refund hash).bind fun replay replay' P hq => ?_
  obtain ⟨hreplay, hclaim⟩ := hq
  cases hreplay with
  | some h => exact ⟨_, rfl, h⟩
  | none =>
    refine (implements_lockPurchase purchaseId walletId (hclaim rfl)).bind
      fun record record' P₁ ⟨hrecord, hamounts, hP₁⟩ => ?_
    subst hrecord
    rcases record with _ | record
    · exact ⟨_, rfl, .plain⟩
    have htotal : Storable record.read.total :=
      hamounts record rfl _ (by simp [Purchase.amounts])
    have hrefunded : Storable record.read.refundedTotal :=
      hamounts record rfl _ (by simp [Purchase.amounts])
    have hbounds : |record.read.total - record.read.refundedTotal| ≤ 2 * maxBalance := by
      unfold Storable at htotal hrefunded
      rw [abs_le] at *
      omega
    have hremaining : InCents (Decimal.ofCents record.total - Decimal.ofCents record.refundedTotal)
        (record.read.total - record.read.refundedTotal) := by
      refine (InCents.ofCents _).sub (.ofCents _) (small_of_le ?_)
      unfold maxBalance at *
      exact hbounds.trans (by decide)
    have hrequested : InCents ((amount.map Amount.value).getD
          (Decimal.ofCents record.total - Decimal.ofCents record.refundedTotal))
        ((amount.map Amount.cents).getD (record.read.total - record.read.refundedTotal)) := by
      rcases amount with _ | amount
      · exact hremaining
      · exact .of_isCents amount.isCents
    dsimp only [Option.map_some]
    revert hrequested
    generalize (amount.map Amount.value).getD _ = requested
    generalize (amount.map Amount.cents).getD _ = n
    intro hrequested
    simp only [InCents.zero.lt_iff hrequested, hremaining.lt_iff hrequested, not_lt, gt_iff_lt]
    split_ifs with hrefused
    · exact ⟨_, rfl, .refundNotAllowed hrequested hremaining⟩
    have hrange : 0 < n ∧ n ≤ record.read.total - record.read.refundedTotal := by omega
    refine (implements_lockWallet walletId hP₁).bind fun wallet row P₂ ⟨hwallet, hP₂⟩ => ?_
    cases hwallet with
    | none => exact ⟨_, rfl, .plain⟩
    | @some wallet row hloaded =>
      obtain ⟨hshows, hrow⟩ := hloaded
      have hn : |n| ≤ 2 * maxBalance := by
        rw [abs_le] at *
        omega
      refine (implements_credit walletId hshows hrow hrequested hn hP₂).bind
        fun wallet row P₃ ⟨hshows, hP₃⟩ => ?_
      refine (implements_flushWallet walletId hshows hP₃).bind fun _ _ P₄ hP₄ => ?_
      have hpaid : InCents (Decimal.ofCents record.refundedTotal + requested)
          (record.read.refundedTotal + n) := by
        refine (InCents.ofCents record.read.refundedTotal).add hrequested (small_of_le ?_)
        unfold Storable at hrefunded
        rw [abs_le] at *
        unfold maxBalance at *
        omega
      have hleft : InCents (Decimal.ofCents record.total - (Decimal.ofCents record.refundedTotal + requested))
          (record.read.total - (record.read.refundedTotal + n)) := by
        refine (InCents.ofCents record.read.total).sub hpaid (small_of_le ?_)
        rw [abs_le] at *
        unfold maxBalance at *
        omega
      have hread : ({ record with
            refundedTotal := numeric (Decimal.ofCents record.refundedTotal + requested) } : PurchaseRow).read =
          { record.read with refundedTotal := record.read.refundedTotal + n } := by
        rw [hpaid.numeric_eq]
        rfl
      have hupdate : reading.Implements Reports now
          (execute (sql (.updatePurchase { record with
            refundedTotal := numeric (Decimal.ofCents record.refundedTotal + requested) })))
          (WalletUsers.execute (WalletUsers.query (.updatePurchase { record.read with
            refundedTotal := record.read.refundedTotal + n }))) P₄ _ :=
        hread ▸ implements_updatePurchase hP₄
      refine hupdate.bind fun _ _ P₅ hP₅ => ?_
      refine (implements_recordOperation operationId walletId .refund (some record.id) hshows hrequested
        hP₅).bind fun _ _ P₆ hP₆ => ?_
      have hreplays : Replays .refund (Record.refund {
            purchaseId := record.id, refunded := requested,
            refundedTotal := Decimal.ofCents record.refundedTotal + requested,
            refundableRemaining :=
              Decimal.ofCents record.total - (Decimal.ofCents record.refundedTotal + requested),
            balance := wallet.balance }).dict (.refund {
            purchaseId := record.read.id, refunded := n, refundedTotal := record.read.refundedTotal + n,
            refundableRemaining := record.read.total - (record.read.refundedTotal + n),
            balance := row.balance }) := by
        refine replays_dict (fun d hd => ?_) rfl ?_
        · simp only [Record.amounts, List.mem_cons, List.not_mem_nil, or_false] at hd
          rcases hd with rfl | rfl | rfl | rfl
          · exact hrequested.isCents
          · exact hpaid.isCents
          · exact hleft.isCents
          · exact hshows.1.isCents
        · unfold Record.payload
          dsimp only
          rw [hrequested.cents_eq, hpaid.cents_eq, hleft.cents_eq, hshows.1.cents_eq]
          rfl
      refine (implements_storeIdempotentResult hreplays hP₆).bind fun _ _ _ _ => ?_
      exact ⟨_, rfl, hreplays⟩

theorem implements_setStatus (walletId : UUID) (status : WalletStatus) :
    reading.Implements Reports now (setStatus walletId status) (WalletUsers.setStatus walletId status) []
      fun status payload _ => payload = .status status := by
  have hclaim : Claimed none .operation [] := fun k hk => by cases hk
  refine (implements_lockWallet walletId hclaim).bind fun wallet row P₁ ⟨hwallet, hP₁⟩ => ?_
  cases hwallet with
  | none => exact ⟨_, rfl, .plain⟩
  | @some wallet row hloaded =>
    have hshows : Shows { wallet with status } { row with status } := ⟨hloaded.1.1, rfl⟩
    refine (implements_flushWallet walletId hshows hP₁).bind fun _ _ _ _ => ?_
    exact ⟨_, rfl, rfl⟩

theorem implements_getBalance (walletId : UUID) (hP : Claimed key e P) :
    reading.Implements Reports now (getBalance walletId) (WalletUsers.getBalance walletId) P
      fun d n _ => d = Decimal.ofCents n := by
  refine (implements_query rfl (fun _ _ ho => by cases ho) hP).bind fun wallet wallet' P₁ hq => ?_
  obtain ⟨rfl, -, -⟩ := hq
  rcases wallet with _ | wallet
  · exact ⟨_, rfl, .plain⟩
  · exact ⟨_, rfl, rfl⟩

end WalletUsers.Columns

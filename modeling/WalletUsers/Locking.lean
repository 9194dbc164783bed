import WalletUsers.Crud
import WalletUsers.Txn.Serializability

/-!
# What the row locks protect

The discipline of the data-access layer.  A wallet, a purchase or an idempotency key may not change
while its row is locked by another transaction.  The counter row of a coupon protects more than
itself: redemptions of the coupon are inserted only under it, so that their count stays the same.
Besides, no row is ever deleted, and a key that has its response keeps it.
-/

namespace WalletUsers

open Txn

/-! ## The effect of one write -/

namespace Store

variable (s : Store)

theorem findPurchase_addPurchase (row : Purchase) (id : UUID) :
    (s.apply (.addPurchase row)).findPurchase id =
      (s.findPurchase id).or (if row.id = id then some row else none) := by
  unfold findPurchase
  show (s.purchases ++ [row]).find? _ = _
  rw [List.find?_append]
  congr 1
  by_cases h : row.id = id <;> simp [h]

theorem findPurchase_putPurchase (row : Purchase) (id : UUID) :
    (s.apply (.putPurchase row)).findPurchase id =
      (s.findPurchase id).map fun r => if r.id = row.id then row else r := by
  unfold findPurchase
  show (s.purchases.map _).find? _ = _
  rw [List.find?_map]
  congr 2
  funext r
  by_cases h : r.id = row.id <;> simp [h]

theorem countRedemptions_addRedemption (row : CouponRedemption) (code : String) (id : UUID) :
    (s.apply (.addRedemption row)).countRedemptions code id =
      s.countRedemptions code id + if row.couponCode = code ∧ row.walletId = id then 1 else 0 := by
  unfold countRedemptions
  show (s.redemptions ++ [row]).countP _ = _
  rw [List.countP_append, List.countP_singleton]
  simp

end Store

/-- The locks a write is made under. -/
def Write.touches : Write → Set Lock
  | .putKey key _ => {.key key}
  | .putWallet walletId _ => {.wallet walletId}
  | .putUsage code _ => {.usage code}
  | .addRedemption row => {.redemption row.id, .usage row.couponCode}
  | .addPurchase row | .putPurchase row => {.purchase row.id}
  | .addOperation row => {.operation row.id}

/-! ## What others may commit -/

/-- From `s` to `s'`, the rows locked in `H` have not changed, and no row has been deleted. -/
structure Kept (H : Set Lock) (s s' : Store) : Prop where
  wallet : ∀ id, .wallet id ∈ H → s'.wallets id = s.wallets id
  usage : ∀ code, .usage code ∈ H → s'.usages code = s.usages code
  count : ∀ code, .usage code ∈ H → ∀ id, s'.countRedemptions code id = s.countRedemptions code id
  key : ∀ key, .key key ∈ H → s'.keys key = s.keys key
  purchase : ∀ id, .purchase id ∈ H → s'.findPurchase id = s.findPurchase id
  redemption : ∀ id, .redemption id ∈ H →
    (id ∈ s'.redemptions.map (·.id) ↔ id ∈ s.redemptions.map (·.id))
  operation : ∀ id, .operation id ∈ H →
    (id ∈ s'.operations.map (·.id) ↔ id ∈ s.operations.map (·.id))
  wallets : ∀ id, s'.wallets id = none → s.wallets id = none
  usages : ∀ code, s'.usages code = none → s.usages code = none
  keys : ∀ key, s'.keys key = none → s.keys key = none

namespace Kept

variable {G H : Set Lock} {s s' s'' : Store}

theorem refl (H : Set Lock) (s : Store) : Kept H s s := by
  constructor <;> intros <;> first | rfl | assumption

theorem trans (h : Kept H s s') (h' : Kept H s' s'') : Kept H s s'' where
  wallet id hl := (h'.wallet id hl).trans (h.wallet id hl)
  usage code hl := (h'.usage code hl).trans (h.usage code hl)
  count code hl id := (h'.count code hl id).trans (h.count code hl id)
  key key hl := (h'.key key hl).trans (h.key key hl)
  purchase id hl := (h'.purchase id hl).trans (h.purchase id hl)
  redemption id hl := (h'.redemption id hl).trans (h.redemption id hl)
  operation id hl := (h'.operation id hl).trans (h.operation id hl)
  wallets id hn := h.wallets id (h'.wallets id hn)
  usages code hn := h.usages code (h'.usages code hn)
  keys key hn := h.keys key (h'.keys key hn)

theorem mono (hG : G ⊆ H) (h : Kept H s s') : Kept G s s' where
  wallet id hl := h.wallet id (hG hl)
  usage code hl := h.usage code (hG hl)
  count code hl := h.count code (hG hl)
  key key hl := h.key key (hG hl)
  purchase id hl := h.purchase id (hG hl)
  redemption id hl := h.redemption id (hG hl)
  operation id hl := h.operation id (hG hl)
  wallets := h.wallets
  usages := h.usages
  keys := h.keys

/-- What the holder of `H` relies on, it may rely on after a write of its own. -/
theorem apply (w : Write) (h : Kept H s s') : Kept H (s.apply w) (s'.apply w) := by
  obtain ⟨hw, hu, hc, hk, hp, hr, ho, hws, hus, hks⟩ := h
  cases w with
  | putKey key row =>
    refine ⟨hw, hu, hc, fun k hl => ?_, hp, hr, ho, hws, hus, fun k => ?_⟩ <;>
      by_cases hk' : k = key <;> simp_all [Store.apply, Function.update]
  | putWallet walletId row =>
    refine ⟨fun id hl => ?_, hu, hc, hk, hp, hr, ho, fun id => ?_, hus, hks⟩ <;>
      by_cases hid : id = walletId <;> simp_all [Store.apply, Function.update]
  | putUsage code row =>
    refine ⟨hw, fun c hl => ?_, hc, hk, hp, hr, ho, hws, fun c => ?_, hks⟩ <;>
      by_cases hcode : c = code <;> simp_all [Store.apply, Function.update]
  | addRedemption row =>
    refine ⟨hw, hu, fun code hl id => ?_, hk, hp, fun id hl => ?_, ho, hws, hus, hks⟩
    · rw [Store.countRedemptions_addRedemption, Store.countRedemptions_addRedemption, hc code hl]
    · simp only [Store.apply, List.map_append, List.mem_append, hr id hl]
  | addPurchase row =>
    refine ⟨hw, hu, hc, hk, fun id hl => ?_, hr, ho, hws, hus, hks⟩
    rw [Store.findPurchase_addPurchase, Store.findPurchase_addPurchase, hp id hl]
  | putPurchase row =>
    refine ⟨hw, hu, hc, hk, fun id hl => ?_, hr, ho, hws, hus, hks⟩
    rw [Store.findPurchase_putPurchase, Store.findPurchase_putPurchase, hp id hl]
  | addOperation row =>
    refine ⟨hw, hu, hc, hk, hp, hr, fun id hl => ?_, hws, hus, hks⟩
    simp only [Store.apply, List.map_append, List.mem_append, ho id hl]

/-- A write changes nothing that other locks protect. -/
theorem of_touches {w : Write} (hG : Disjoint G w.touches) : Kept G s (s.apply w) := by
  obtain ⟨hw, hu, hc, hk, hp, hr, ho, hws, hus, hks⟩ := refl G s
  have hne : ∀ l ∈ G, l ∉ w.touches := fun l hl => Set.disjoint_left.mp hG hl
  cases w with
  | putKey key row =>
    refine ⟨hw, hu, hc, fun k hl => ?_, hp, hr, ho, hws, hus, fun k => ?_⟩
    · have hk' : k ≠ key := fun h => hne _ hl (by simp [Write.touches, h])
      simp [Store.apply, hk']
    · by_cases hk' : k = key <;> simp [Store.apply, hk']
  | putWallet walletId row =>
    refine ⟨fun id hl => ?_, hu, hc, hk, hp, hr, ho, fun id => ?_, hus, hks⟩
    · have hid : id ≠ walletId := fun h => hne _ hl (by simp [Write.touches, h])
      simp [Store.apply, hid]
    · by_cases hid : id = walletId <;> simp [Store.apply, hid]
  | putUsage code row =>
    refine ⟨hw, fun c hl => ?_, hc, hk, hp, hr, ho, hws, fun c => ?_, hks⟩
    · have hcode : c ≠ code := fun h => hne _ hl (by simp [Write.touches, h])
      simp [Store.apply, hcode]
    · by_cases hcode : c = code <;> simp [Store.apply, hcode]
  | addRedemption row =>
    refine ⟨hw, hu, fun code hl id => ?_, hk, hp, fun id hl => ?_, ho, hws, hus, hks⟩
    · have hcode : row.couponCode ≠ code := fun h => hne _ hl (by simp [Write.touches, h])
      simp [Store.countRedemptions_addRedemption, hcode]
    · have hid : id ≠ row.id := fun h => hne _ hl (by simp [Write.touches, h])
      simp [Store.apply, hid]
  | addPurchase row =>
    refine ⟨hw, hu, hc, hk, fun id hl => ?_, hr, ho, hws, hus, hks⟩
    have hid : row.id ≠ id := fun h => hne _ hl (by simp [Write.touches, h])
    simp [Store.findPurchase_addPurchase, hid]
  | putPurchase row =>
    refine ⟨hw, hu, hc, hk, fun id hl => ?_, hr, ho, hws, hus, hks⟩
    have hid : row.id ≠ id := fun h => hne _ hl (by simp [Write.touches, h])
    rw [Store.findPurchase_putPurchase]
    rcases hf : s.findPurchase id with _ | r
    · rfl
    · have hr : r.id = id := by simpa using List.find?_some hf
      simp [hr, hid.symm]
  | addOperation row =>
    refine ⟨hw, hu, hc, hk, hp, hr, fun id hl => ?_, hws, hus, hks⟩
    have hid : id ≠ row.id := fun h => hne _ hl (by simp [Write.touches, h])
    simp [Store.apply, hid]

theorem of_applyAll {P : List Write} (hP : ∀ w ∈ P, w.touches ⊆ H) (hG : Disjoint G H) :
    Kept G s (postgres.applyAll s P) := by
  induction P generalizing s with
  | nil => exact refl G s
  | cons w P ih =>
    have hw : Disjoint G w.touches := hG.mono_right (hP w List.mem_cons_self)
    exact (of_touches hw).trans (ih fun w' h' => hP w' (List.mem_cons_of_mem _ h'))

end Kept

/-- A stored response is never changed. -/
def Remembered (s s' : Store) : Prop :=
  ∀ key row, s.keys key = some row → row.response.isSome → s'.keys key = some row

/-- The changes others may commit while the locks `H` are held. -/
structure Later (H : Set Lock) (s s' : Store) : Prop extends Kept H s s' where
  remembered : Remembered s s'

theorem Remembered.apply {s s' : Store} (w : Write) (h : Remembered s s') :
    Remembered (s.apply w) (s'.apply w) := by
  intro key row hrow hresp
  cases w with
  | putKey key' row' =>
    by_cases hk : key = key'
    · subst hk
      simpa [Store.apply] using hrow
    · simp only [Store.apply, Function.update_of_ne hk] at hrow ⊢
      exact h key row hrow hresp
  | _ => exact h key row hrow hresp

/-- A transaction locks a key only by inserting it. -/
def Lock.Valid : Lock → Store → Prop
  | .key k, s => s.keys k = none
  | _, _ => True

/-- **The discipline of the data-access layer.** -/
def rowLocks : Discipline postgres where
  Later := Later
  touches := Write.touches
  Valid := Lock.Valid
  refl H s := ⟨.refl H s, fun _ _ h _ => h⟩
  trans h h' := ⟨h.toKept.trans h'.toKept,
    fun key row hrow hr => h'.remembered key row (h.remembered key row hrow hr) hr⟩
  mono hG h := ⟨h.toKept.mono hG, h.remembered⟩
  valid {H s s' l} hl hv h := by
    cases l with
    | key key => exact (h.key key hl).trans hv
    | _ => trivial
  apply w h := ⟨h.toKept.apply w, h.remembered.apply w⟩
  commit {G H P s} hP hv hG := by
    refine ⟨.of_applyAll hP hG, fun key row hrow hr => ?_⟩
    -- a key with a response was there before, so it is not one the transaction has inserted
    have hkey : .key key ∉ H := fun hl => by
      have hnone : s.keys key = none := hv _ hl
      rw [hnone] at hrow
      cases hrow
    have hkept : Kept {.key key} s (postgres.applyAll s P) :=
      .of_applyAll hP (Set.disjoint_singleton_left.mpr hkey)
    exact (hkept.key key rfl).trans hrow

end WalletUsers

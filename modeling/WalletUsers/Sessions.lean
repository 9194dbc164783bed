import WalletUsers.Isolation
import WalletUsers.Requests
import WalletUsers.Txn.Linearizability
import WalletUsers.Txn.Sessions

/-!
# Concurrent requests

Every request has a session of its own.  The operations that change the store commit it; after a read
it is closed, which rolls back the transaction that its first statement has begun.  The database may
be lost at any statement, and at the commit, before it takes effect: nothing catches that, and the client
is answered `503`.  A request whose commit has taken effect is one that has been served, whether or not
its answer gets through.

Concurrent requests, reads included, are answered as if they had been served one after the other, in an
order that respects real time, and those that have lost the database so had not been served at all
(`Service.linearizable`).  The exception is the check of a coupon with a limit: its looks at the coupon
and at the balance may see different states of the store.
-/

namespace WalletUsers

open Python Txn Discipline

/-- A request as it arrives; its transaction will get its start time from the database, which it may
lose after some number of its statements. -/
structure Arrival where
  moment : DateTime
  ids : PurchaseIds
  request : Request
  lost : Option ℕ := none

/-- The request, served by a transaction that starts at the time `now`. -/
def Arrival.event (a : Arrival) (now : ℕ) : Event := ⟨a.moment, now, a.ids, a.request⟩

/-- The requests whose session is closed without a commit. -/
def Request.isRead : Request → Bool
  | readBalance _ | readHistory .. | checkPurchase .. => true
  | _ => false

namespace Service

variable {service : Service}

/-- The session of a request. -/
def session (service : Service) (a : Arrival) :
    Prog Stmt Stmt.Res (Except Err Response) Response :=
  if a.request.isRead then (service.endpoint a.moment a.ids a.request).discard
  else (service.endpoint a.moment a.ids a.request).attempt

/-- The sessions of the requests, where the database may be lost. -/
def sessions {ι : Type} (service : Service) (arrivals : ι → Arrival) :
    ι → Prog Stmt Stmt.Res (Option (Except Err Response)) Response :=
  cutOff (fun i => service.session (arrivals i)) fun i => (arrivals i).lost

/-- The answers to the requests, one after the other. -/
def answers (service : Service) (s : Store) : List Event → List (Except Err Response)
  | [] => []
  | e :: events => (service.handle e s).1 :: service.answers (service.handle e s).2 events

theorem answers_append (service : Service) (s : Store) (events events' : List Event) :
    service.answers s (events ++ events') =
      service.answers s events ++ service.answers (service.run s events) events' := by
  induction events generalizing s with
  | nil => rfl
  | cons e events ih => exact congrArg (_ :: ·) (ih _)

theorem call_eq_none {moment : DateTime} {ids : PurchaseIds} {request : Request}
    (h : request.isRead = true) : service.call moment ids request = .ok none := by
  cases request with
  | readBalance | readHistory | checkPurchase => rfl
  | _ => cases h

/-- A session does what the request does. -/
theorem atomically_session (service : Service) (a : Arrival) (now : ℕ) (s : Store) :
    answered (postgres.atomically now (service.session a) s).1 = (service.handle (a.event now) s).1 ∧
      (postgres.atomically now (service.session a) s).2 = (service.handle (a.event now) s).2 := by
  unfold session
  split_ifs with hread
  · rw [postgres.atomically_discard]
    have hcall : service.call a.moment a.ids a.request = .ok none := call_eq_none hread
    exact ⟨rfl, (handle_of_read (e := a.event now) hcall).symm⟩
  · exact postgres.atomically_attempt now _ s

/-! ## The sessions keep the discipline -/

theorem endpoint_of_error {moment : DateTime} {ids : PurchaseIds} {request : Request} {err : Err}
    (h : service.call moment ids request = .error err) :
    service.endpoint moment ids request = .raise err := by
  cases request with
  | changeBalance | changeStatus | refundPurchase | readBalance | readHistory | checkPurchase =>
    cases h
  | makePurchase walletUuid payload key =>
    show service.makePurchase moment walletUuid payload key ids = _
    rw [makePurchase_eq, priced_of_error h]
    rfl

/-- A request that is not a read makes a call, or fails its own checks. -/
theorem call_of_write {moment : DateTime} {ids : PurchaseIds} {request : Request}
    (h : request.isRead = false) : (∃ call, service.call moment ids request = .ok (some call)) ∨
      ∃ err, service.call moment ids request = .error err := by
  cases request with
  | changeBalance | changeStatus | refundPurchase => exact .inl ⟨_, rfl⟩
  | makePurchase walletUuid payload key =>
    rcases hcall : service.call moment ids (.makePurchase walletUuid payload key) with err | call
    · exact .inr ⟨err, rfl⟩
    · obtain ⟨promo, totals, -, rfl⟩ := purchase_of_call hcall
      exact .inl ⟨_, rfl⟩
  | readBalance | readHistory | checkPurchase => cases h

variable {H : Set Lock} {now : ℕ}

theorem silent_of_reads {o : Stmt} (h : o.Reads) : Silent postgres o := by
  cases o <;> first | exact fun _ => ⟨fun _ => rfl, rfl⟩ | exact h.elim

theorem takes_readBalance (walletUuid : UUID) :
    rowLocks.Takes now H (readBalance walletUuid).discard fun _ => ∅ := by
  refine takes_last (silent_of_reads trivial) fun wallet => ?_
  cases wallet <;> exact ⟨_, rfl⟩

/-- The history looks for the wallet first: once it is there, it stays. -/
theorem takes_readHistory (walletUuid : UUID) (limit offset : ℕ) :
    rowLocks.Takes now H (readHistory walletUuid limit offset).discard fun _ => ∅ := by
  have hrows : ∀ wallet : Wallet, rowLocks.Takes now H
      (Prog.discard ((query (.selectOperations walletUuid limit offset) : Tx _) >>= fun rows =>
        orRaise (checkOffset offset) >>= fun _ => .ret (Response.history walletUuid rows)))
      fun _ => ∅ := by
    refine fun _ => takes_last (silent_of_reads trivial) fun rows => ?_
    cases checkOffset offset <;> exact ⟨_, rfl⟩
  refine takes_look (silent_of_reads trivial) (fun v => ?_) fun v => ?_
  · generalize hv : postgres.answer (.getWallet walletUuid) v = found
    change v.wallets walletUuid = found at hv
    cases found with
    | none => exact .inl ⟨_, rfl⟩
    | some wallet =>
      refine .inr fun v' hlater => ?_
      generalize hv' : postgres.answer (.getWallet walletUuid) v' = found'
      change v'.wallets walletUuid = found' at hv'
      cases found' with
      | none => cases hv.symm.trans (hlater.wallets walletUuid hv')
      | some wallet' => rfl
  · generalize postgres.answer (.getWallet walletUuid) v = found
    cases found with
    | none => exact takes_raise
    | some wallet => exact hrows wallet

/-- The quote of a cart ends with the look at the balance. -/
theorem takes_quote (payload : PurchaseRequest) (promo : Option Promo) (walletUuid : UUID)
    (response : CartTotals → ℤ → Response) :
    rowLocks.Takes now H (Prog.discard (orRaise payload.subtotal >>= fun subtotal =>
      orRaise (priceCart subtotal promo) >>= fun totals =>
        getBalance walletUuid >>= fun balance => .ret (response totals balance))) fun _ => ∅ := by
  cases payload.subtotal with
  | error e => exact takes_raise
  | ok subtotal =>
    cases hprice : priceCart subtotal promo with
    | error e =>
      show rowLocks.Takes now H (Prog.discard (orRaise (priceCart subtotal promo) >>= _)) _
      rw [hprice]
      exact takes_raise
    | ok totals =>
      show rowLocks.Takes now H (Prog.discard (orRaise (priceCart subtotal promo) >>= _)) _
      rw [hprice]
      refine takes_last (silent_of_reads trivial) fun wallet => ?_
      cases wallet <;> exact ⟨_, rfl⟩

/-- The request does not check a coupon that has a limit. -/
def Unlimited (service : Service) (a : Arrival) : Prop :=
  ∀ walletUuid payload, a.request = .checkPurchase walletUuid payload →
    ∀ p, service.resolvePromo a.moment payload.promoCode = .ok (some p) →
      p.maxUses = none ∧ p.maxUsesPerWallet = none

/-- Where the coupon has no limit, nothing depends on what is found in its counter row. -/
theorem validateCoupon_unlimited {p : Promo} (walletUuid : UUID) (hmax : p.maxUses = none)
    (hwallet : p.maxUsesPerWallet = none) :
    validateCoupon p walletUuid = .stmt (.getUsage p.code) fun _ => .ret none := by
  unfold validateCoupon checkWalletLimit
  rw [hmax, hwallet]
  simp [query, Prog.perform]

theorem takes_checkPurchase {moment : DateTime} (walletUuid : UUID) (payload : PurchaseRequest)
    (hlimits : ∀ p, service.resolvePromo moment payload.promoCode = .ok (some p) →
      p.maxUses = none ∧ p.maxUsesPerWallet = none) :
    rowLocks.Takes now H (service.checkPurchase moment walletUuid payload).discard fun _ => ∅ := by
  unfold checkPurchase
  rcases hpromo : service.resolvePromo moment payload.promoCode with e | _ | p
  · exact takes_raise
  · exact takes_quote payload none walletUuid _
  · obtain ⟨hmax, hwallet⟩ := hlimits p hpromo
    show rowLocks.Takes now H (Prog.discard (validateCoupon p walletUuid >>= _)) _
    rw [validateCoupon_unlimited walletUuid hmax hwallet]
    refine takes_look (silent_of_reads trivial) (fun v => .inr fun v' _ => rfl) fun v => ?_
    exact takes_quote payload (some p) walletUuid _

/-- **Every session keeps the discipline**, unless it checks a coupon with a limit. -/
theorem guarded_session (a : Arrival) (h : service.Unlimited a) (now : ℕ) :
    rowLocks.Guarded now (service.session a) ∅ [] fun _ _ _ => True := by
  have htakes : ∀ {p : Prog Stmt Stmt.Res (Except Err Response) Response},
      rowLocks.Takes now ∅ p (fun _ => ∅) → rowLocks.Guarded now p ∅ [] fun _ _ _ => True :=
    fun hp => guarded_mono (hp ∅ [] subset_rfl) fun _ _ _ _ => trivial
  unfold session
  split_ifs with hread
  · obtain ⟨moment, ids, request⟩ := a
    cases request with
    | readBalance walletUuid => exact htakes (takes_readBalance walletUuid)
    | readHistory walletUuid limit offset => exact htakes (takes_readHistory walletUuid limit offset)
    | checkPurchase walletUuid payload =>
      exact htakes (takes_checkPurchase walletUuid payload (h walletUuid payload rfl))
    | _ => cases hread
  · refine guarded_attempt ?_
    have hwrite : (∃ call, service.call a.moment a.ids a.request = .ok (some call)) ∨
        ∃ err, service.call a.moment a.ids a.request = .error err :=
      call_of_write (Bool.eq_false_iff.mpr hread)
    rcases hwrite with ⟨call, hcall⟩ | ⟨err, herr⟩
    · rw [endpoint_of_call hcall]
      exact guarded_bind (guarded_call call now)
    · rw [endpoint_of_error herr]
      trivial

/-- A read takes no lock and writes nothing. -/
theorem silent_session {a : Arrival} (h : a.request.isRead = true) :
    (service.session a).All (Discipline.Silent postgres) := by
  unfold session
  rw [if_pos h]
  have hreads : (service.endpoint a.moment a.ids a.request).All Stmt.Reads :=
    all_endpoint (call_eq_none h)
  exact Prog.all_discard (hreads.mono fun o => silent_of_reads)

/-! ## Linearizability -/

/-- The requests of a log, with the start times of their transactions. -/
def events {ι : Type} (arrivals : ι → Arrival) (log : List (ι × ℕ × Except Err Response)) :
    List Event :=
  log.map fun x => (arrivals x.1).event x.2.1

/-- A serial execution of sessions is a run of their requests. -/
theorem run_of_serial {ι : Type} {arrivals : ι → Arrival} {s₀ s : Store}
    {log : List (ι × ℕ × Except (Except Err Response) Response)}
    (h : Serial postgres (fun i => service.session (arrivals i)) s₀ log s) :
    service.run s₀ (events arrivals (log.map fun x => (x.1, x.2.1, answered x.2.2))) = s ∧
      service.answers s₀ (events arrivals (log.map fun x => (x.1, x.2.1, answered x.2.2))) =
        log.map fun x => answered x.2.2 := by
  induction h with
  | nil => exact ⟨rfl, rfl⟩
  | @snoc log s h i now r s' hr ih =>
    obtain ⟨hrun, hanswers⟩ := ih
    obtain ⟨hanswer, hstore⟩ := atomically_session service (arrivals i) now s
    rw [hr] at hanswer hstore
    unfold events at hrun hanswers ⊢
    rw [List.map_append, List.map_append, run_append, answers_append, hrun, hanswers,
      List.map_append]
    exact ⟨hstore.symm, congrArg (_ ++ [·]) hanswer.symm⟩

/-- The requests have been served as in the log: one after the other, each with its answer. -/
structure ServedAs {ι : Type} [DecidableEq ι] (service : Service) (arrivals : ι → Arrival)
    (s₀ : Store) (schedule : List ι)
    (c : Config Store Stmt Stmt.Res Write Lock ι (Option (Except Err Response)) Response)
    (log : List (ι × ℕ × Except Err Response)) : Prop where
  /-- Every request is served once. -/
  once : (log.map Prod.fst).Nodup
  /-- One after the other, the requests lead to the same rows, down to `created_at`. -/
  store : service.run s₀ (events arrivals log) = c.store
  /-- One after the other, the requests get the same answers. -/
  answers : service.answers s₀ (events arrivals log) = log.map fun x => x.2.2
  /-- A request that has been answered has been served, with that answer. -/
  finished : ∀ i r, c.phase i = .finished r → ∀ answer ∈ heard r, ∃ now, (i, now, answer) ∈ log
  /-- A request that has lost the database before its commit took effect has not been served. -/
  lost : ∀ i r, c.phase i = .finished r → heard r = none → i ∉ log.map Prod.fst
  /-- A request that has not arrived has not been served. -/
  idle : ∀ i, c.phase i = .idle → i ∉ log.map Prod.fst
  /-- The time in the log is that of the start of its transaction. -/
  began : ∀ x ∈ log, BeganAt postgres (service.sessions arrivals) s₀ schedule x.1 x.2.1
  /-- A request that is answered before another one arrives is served before it. -/
  realTime : ∀ i j r, Precedes postgres (service.sessions arrivals) s₀ schedule i r j →
    heard r ≠ none → (log.map Prod.fst).idxOf i < (log.map Prod.fst).idxOf j

/-- **Linearizability.**  However the statements of concurrent requests interleave, reads included, and
wherever some of them lose the database before their commit takes effect, the requests are answered, and
leave the store, as if they had been served one after the other, each at some moment between its arrival
and its answer, and those that lost the database not at all. -/
theorem linearizable {ι : Type} [DecidableEq ι] (service : Service) (arrivals : ι → Arrival)
    (hlimits : ∀ i, service.Unlimited (arrivals i)) {s₀ : Store} {schedule : List ι}
    {c : Config Store Stmt Stmt.Res Write Lock ι (Option (Except Err Response)) Response}
    (hrun : runSchedule postgres (service.sessions arrivals) (.initial s₀) schedule = some c) :
    ∃ log, service.ServedAs arrivals s₀ schedule c log := by
  have hguarded : ∀ i now, rowLocks.Guarded now (service.session (arrivals i)) ∅ []
      fun _ _ _ => True := fun i => guarded_session (arrivals i) (hlimits i)
  obtain ⟨log, hlog⟩ := exists_linearization hguarded hrun
  obtain ⟨hstore, hanswers⟩ := run_of_serial hlog.serial
  have hids : (log.map fun x => (x.1, x.2.1, answered x.2.2)).map Prod.fst = log.map Prod.fst := by
    rw [List.map_map]
    rfl
  -- a request that has not lost the database has ended as its session does
  have hends : ∀ r : Except (Option (Except Err Response)) Response, heard r ≠ none →
      ∃ r', r = r'.mapError some ∧ heard r = some (answered r') := fun r hr =>
    exists_eq_mapError fun hlost => hr (by rw [hlost]; rfl)
  refine ⟨log.map fun x => (x.1, x.2.1, answered x.2.2), ?_, hstore, ?_, fun i r hp answer hr => ?_,
    fun i r hp hr => ?_, fun i hp => ?_, fun x hx => ?_, fun i j r hij hr => ?_⟩
  · rw [hids]
    exact hlog.nodup
  · rw [hanswers, List.map_map]
    rfl
  · obtain ⟨r', rfl, hheard⟩ := hends r (Option.ne_none_iff_exists'.mpr ⟨answer, hr⟩)
    obtain rfl : answered r' = answer := Option.some.inj (hheard.symm.trans hr)
    obtain ⟨now, hmem⟩ := hlog.accounts.mem_of_finished hp
    exact ⟨now, List.mem_map.mpr ⟨_, hmem, rfl⟩⟩
  · rcases r with e | a
    · obtain rfl : e = none := hr
      rw [hids]
      exact hlog.accounts.not_mem_of_lost hp
    · cases hr
  · rw [hids]
    exact hlog.accounts.not_mem_of_idle hp
  · obtain ⟨y, hy, rfl⟩ := List.mem_map.mp hx
    exact hlog.began y hy
  · obtain ⟨r', rfl, -⟩ := hends r hr
    rw [hids]
    exact hlog.idxOf_lt hij

/-- A deposit commits between the two statements of a reader, which is served after it; another deposit
loses the database before its commit takes effect, and is not served at all. -/
theorem straddled_read_linearizable :
    let amount : Amount := ⟨.ofInt 5, by decide, by decide, by decide⟩
    let arrivals : Fin 4 → Arrival := fun i => {
      moment := 0, ids := ⟨1, 1, if i = 0 then 1 else 2⟩, lost := if i = 3 then some 3 else none
      request := if i = 1 then .readHistory 7 50 0 else .changeBalance 7 ⟨.deposit, amount⟩ none }
    let schedule : List (Fin 4) := [0, 0, 0, 0, 0, 0, 3, 3, 3, 3, 3, 2, 2, 2, 2, 1, 1, 2, 1, 1]
    ∃ c log, runSchedule postgres ((deployed id).sessions arrivals) (.initial .empty) schedule = some c ∧
      (c.phase 1).outcome.bind heard = some (.ok (.history 7
        [⟨⟨2, 7, .deposit, 500, 1000, none⟩, 11⟩, ⟨⟨1, 7, .deposit, 500, 500, none⟩, 0⟩])) ∧
      (c.phase 3).outcome.map heard = some none ∧
      (deployed id).ServedAs arrivals .empty schedule c log := by
  intro amount arrivals schedule
  have hrun : (runSchedule postgres ((deployed id).sessions arrivals) (.initial .empty)
      schedule).any (fun c => decide ((c.phase 1).outcome.bind heard = some (.ok (.history 7
        [⟨⟨2, 7, .deposit, 500, 1000, none⟩, 11⟩, ⟨⟨1, 7, .deposit, 500, 500, none⟩, 0⟩])) ∧
        (c.phase 3).outcome.map heard = some none)) = true := by decide +kernel
  obtain ⟨c, hc, hdec⟩ := (Option.any_eq_true _ _).mp hrun
  obtain ⟨hread, hlost⟩ := of_decide_eq_true hdec
  have hlimits : ∀ i, (deployed id).Unlimited (arrivals i) := by
    intro i walletUuid payload hreq
    by_cases hi : i = 1 <;> simp [arrivals, hi] at hreq
  obtain ⟨log, hlog⟩ := linearizable (deployed id) arrivals hlimits hc
  exact ⟨c, log, hc, hread, hlost, hlog⟩

end Service

end WalletUsers

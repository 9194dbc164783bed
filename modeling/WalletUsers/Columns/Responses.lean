import WalletUsers.Columns.Refinement
import WalletUsers.Refusals

/-!
# Refusals, as the client reads them

A request that is refused is answered with the status code and the text of its exception.  The amounts in
the text are decimals, as they are in the request or in the columns; the grounds are those of
`WalletUsers.Refusals`, of the tables as they are read in cents.
-/

namespace WalletUsers.Columns

open Python Txn Abstraction

/-- The error that a client is answered with, if its request has ended with one. -/
def told (printable : Char → Bool) : Except (Option (Except Error Answer)) Answer → Option Refusal
  | .error none => some unavailable
  | .error (some (.error e)) => some (e.refusal printable)
  | _ => none

variable {e : Error} {err : Err} {printable : Char → Bool} {refusal : Refusal}

theorem Reports.statusCode_eq (h : Reports e err) : e.statusCode = err.statusCode := by
  cases h <;> rfl

/-- An error of the client is the text of an exception. -/
theorem heard_of_told {r : Except (Option (Except Error Answer)) Answer}
    (h : told printable r = some refusal) (hclient : refusal.status < 500) :
    ∃ e, heard r = some (.error e) ∧ refusal = e.refusal printable := by
  rcases r with (_ | e | a) | a
  · obtain rfl := Option.some.inj h
    exact absurd hclient (by decide)
  · exact ⟨e, rfl, (Option.some.inj h).symm⟩
  · cases h
  · cases h

/-- An exception with a handler is told with its text. -/
theorem exists_detail (printable : Char → Bool) (hclient : e.statusCode < 500) :
    ∃ detail, (e.refusal printable).detail = some detail := by
  have hmessage : ∃ fields, e.message = some fields := by
    cases e with
    | insufficientFunds | refundNotAllowed | balanceLimit => exact ⟨_, rfl⟩
    | plain err h =>
      cases err with
      | invalidOperation | database => exact absurd hclient (by decide : ¬500 < 500)
      | insufficientFunds | refundNotAllowed | balanceLimit => cases h
      | _ => exact ⟨_, rfl⟩
  obtain ⟨fields, hfields⟩ := hmessage
  exact ⟨_, congrArg (Option.map _) hfields⟩

theorem isDomain_of_lt (h : err.statusCode < 500) : err.IsDomain := by
  rw [Err.isDomain_iff]
  constructor
  · rintro rfl
    exact absurd h (by decide : ¬500 < 500)
  · rintro d rfl
    exact absurd h (by decide : ¬500 < 500)

/-- What is heard of a session is what is heard of the one in cents. -/
theorem reports_of_heard {r : Except (Option (Except Error Answer)) Answer}
    {r' : Except (Option (Except Err Response)) Response}
    (h : EndsAs Says (Option.Rel (EndsAs Says Reports)) r r') (hheard : heard r = some (.error e)) :
    ∃ err, heard r' = some (.error err) ∧ Reports e err := by
  cases h with
  | ok => cases hheard
  | error h =>
    cases h with
    | none => cases hheard
    | some h =>
      cases h with
      | ok => cases hheard
      | error h =>
        cases hheard
        exact ⟨_, rfl, h⟩

variable {ι : Type} [DecidableEq ι] {i : ι} {t₀ : Tables} {schedule : List ι}
  {c : Config Tables Sql Sql.Res Change Lock ι (Option (Except Error Answer)) Answer}

/-- **Texts.**  However the statements of concurrent requests interleave, and wherever some of them lose
the database, a client that is answered with an error of its own is told the text of an exception, and at
some moment while the request is under way the tables give the grounds that the exception states. -/
theorem told_on_grounds (service : Service) (arrivals : ι → Arrival) (hlegible : t₀.Legible)
    (hrun : runSchedule columns (sessions service arrivals) (.initial t₀) schedule = some c)
    (htold : (c.phase i).outcome.bind (told printable) = some refusal) (hclient : refusal.status < 500) :
    ∃ e err detail, e.refusal printable = refusal ∧ refusal = ⟨err.statusCode, some detail⟩ ∧
      Reports e err ∧ Meanwhile columns (sessions service arrivals) t₀ schedule i fun _ t =>
        Grounds service (arrivals i).moment t.read (arrivals i).request err := by
  obtain ⟨r, hr, htold⟩ := Option.bind_eq_some_iff.mp htold
  obtain ⟨e, hheard, rfl⟩ := heard_of_told htold hclient
  obtain ⟨detail, hdetail⟩ := exists_detail printable hclient
  -- the same schedule, in cents
  have hrel := (represents_initial hlegible).runSchedule (implements_sessions service arrivals) schedule
  rw [hrun] at hrel
  generalize hrun' : runSchedule postgres (service.sessions arrivals) (.initial (reading.store t₀))
    schedule = next at hrel
  cases hrel with
  | @some _ c' hrep =>
    have hphase := hrep.phase i
    rw [Phase.outcome_eq_some.mp hr] at hphase
    generalize hp : c'.phase i = ph at hphase
    cases hphase with
    | finished hends =>
      obtain ⟨err, hheard', hreports⟩ := reports_of_heard hends hheard
      have hstatus := hreports.statusCode_eq
      have hanswer : (c'.phase i).outcome.bind heard = some (.error err) := by
        rw [hp]
        exact hheard'
      have hgrounds := Service.grounds_meanwhile
        (isDomain_of_lt (hstatus.symm.trans_lt hclient)) hrun' hanswer
      refine ⟨e, err, detail, rfl, ?_, hreports,
        meanwhile_of_represents (implements_sessions service arrivals) hlegible hgrounds⟩
      rw [← hstatus, ← hdetail]
      rfl

/-- A withdrawal that comes before the second deposit is told what it is short by. -/
theorem told_on_grounds_of_withdrawal :
    let five : Amount := ⟨.ofInt 5, by decide, by decide, by decide⟩
    let more : Amount := ⟨⟨51, -1⟩, by decide, by decide, by decide⟩
    let arrivals : Fin 3 → Arrival := fun i => {
      moment := 0, ids := ⟨BitVec.ofNat 128 i, 1, BitVec.ofNat 128 i⟩
      request := .changeBalance 7 (if i = 1 then ⟨.withdraw, more⟩ else ⟨.deposit, five⟩) none }
    let schedule : List (Fin 3) := [0, 0, 0, 0, 0, 0, 2, 1, 1, 1, 2, 2, 2, 2]
    let refusal : Refusal := ⟨400, some ("Insufficient funds on wallet " ++
      "00000000-0000-0000-0000-000000000007: required 5.1, available 5.00, short by 0.10")⟩
    ∃ c, runSchedule columns (sessions (deployed id) arrivals) (.initial .empty) schedule = some c ∧
      (c.phase 1).outcome.bind (told fun _ => false) = some refusal ∧
      ∃ e err detail, e.refusal (fun _ => false) = refusal ∧ refusal = ⟨err.statusCode, some detail⟩ ∧
        Reports e err ∧ Meanwhile columns (sessions (deployed id) arrivals) .empty schedule 1 fun _ t =>
          Grounds (deployed id) 0 t.read (arrivals 1).request err := by
  intro five more arrivals schedule refusal
  have hrun : (runSchedule columns (sessions (deployed id) arrivals) (.initial .empty) schedule).any
      (fun c => decide ((c.phase 1).outcome.bind (told fun _ => false) = some refusal)) = true := by
    decide +kernel
  obtain ⟨c, hc, hdec⟩ := (Option.any_eq_true _ _).mp hrun
  have htold := of_decide_eq_true hdec
  exact ⟨c, hc, htold, told_on_grounds (deployed id) arrivals Tables.legible_empty hc htold (by decide)⟩

end WalletUsers.Columns

import WalletUsers.Python.Repr

/-!
# Python's dates

The date of a day, by the cycles of 400, 100 and 4 years, and its text.  A day is read back from its date
(`ordinal_ofOrdinal`), and a date from its text.
-/

namespace Python

/-- A date of the Gregorian calendar. -/
structure Date where
  year : ℤ
  month : ℕ
  day : ℕ
deriving DecidableEq, Repr

namespace Date

/-- The year has a 29th of February. -/
def IsLeap (year : ℤ) : Prop := year % 4 = 0 ∧ (year % 100 ≠ 0 ∨ year % 400 = 0)

instance (year : ℤ) : Decidable (IsLeap year) := inferInstanceAs (Decidable (_ ∧ _))

/-- The days before the first of January. -/
def daysBeforeYear (year : ℤ) : ℤ :=
  (year - 1) * 365 + (year - 1) / 4 - (year - 1) / 100 + (year - 1) / 400

/-- The days of the year before the first of the month. -/
def daysBeforeMonth (leap : Bool) (month : ℕ) : ℕ :=
  [0, 0, 31, 59, 90, 120, 151, 181, 212, 243, 273, 304, 334].getD month 365 +
    if 2 < month ∧ leap then 1 else 0

/-- The number of a date, where the first of January of year 1 has number 1. -/
def ordinal (date : Date) : ℤ :=
  daysBeforeYear date.year + daysBeforeMonth (decide (IsLeap date.year)) date.month + date.day

/-- The month and the day in it, of the `n`-th day of a year after its first one. -/
def monthDay (leap : Bool) (n : ℕ) : ℕ × ℕ :=
  let month := (n + 50) / 32
  let month := if n < daysBeforeMonth leap month then month - 1 else month
  (month, n - daysBeforeMonth leap month + 1)

/-- The date with a number. -/
def ofOrdinal (ordinal : ℤ) : Date :=
  let n := ordinal - 1
  let (n400, n) := (n / 146097, n % 146097)
  let (n100, n) := (n / 36524, n % 36524)
  let (n4, n) := (n / 1461, n % 1461)
  let (n1, n) := (n / 365, n % 365)
  let year := n400 * 400 + 1 + n100 * 100 + n4 * 4 + n1
  if n1 = 4 ∨ n100 = 4 then ⟨year - 1, 12, 31⟩
  else
    let leap := decide (n1 = 3 ∧ (n4 ≠ 24 ∨ n100 = 3))
    ⟨year, (monthDay leap n.toNat).1, (monthDay leap n.toNat).2⟩

example : (ofOrdinal 719163, ofOrdinal 737484, ofOrdinal 719163 |>.ordinal) =
    (⟨1970, 1, 1⟩, ⟨2020, 2, 29⟩, 719163) := by decide

/-- The days of a year are numbered through. -/
theorem daysBeforeMonth_monthDay : ∀ leap : Bool, ∀ n < 365,
    daysBeforeMonth leap (monthDay leap n).1 + (monthDay leap n).2 = n + 1 := by
  decide +kernel

/-- The days before a year, by its place in the cycles. -/
theorem daysBeforeYear_cycles {a b c d : ℤ} (hb : 0 ≤ b ∧ b < 4) (hc : 0 ≤ c ∧ c < 25)
    (hd : 0 ≤ d ∧ d < 4) : daysBeforeYear (a * 400 + 1 + b * 100 + c * 4 + d) =
      146097 * a + 36524 * b + 1461 * c + 365 * d := by
  unfold daysBeforeYear
  have h₄ : (a * 400 + 1 + b * 100 + c * 4 + d - 1) / 4 = a * 100 + b * 25 + c := by omega
  have h₁₀₀ : (a * 400 + 1 + b * 100 + c * 4 + d - 1) / 100 = a * 4 + b := by omega
  have h₄₀₀ : (a * 400 + 1 + b * 100 + c * 4 + d - 1) / 400 = a := by omega
  rw [h₄, h₁₀₀, h₄₀₀]
  omega

theorem isLeap_cycles {a b c d : ℤ} (hb : 0 ≤ b ∧ b < 4) (hc : 0 ≤ c ∧ c < 25) (hd : 0 ≤ d ∧ d < 4) :
    IsLeap (a * 400 + 1 + b * 100 + c * 4 + d) ↔ d = 3 ∧ (c ≠ 24 ∨ b = 3) := by
  unfold IsLeap
  omega

/-- **Round trip.**  A day is read back from its date. -/
theorem ordinal_ofOrdinal (n : ℤ) : (ofOrdinal n).ordinal = n := by
  unfold ofOrdinal
  dsimp only
  obtain ⟨a, r, ha, hr, hn⟩ : ∃ a r, (n - 1) / 146097 = a ∧ (n - 1) % 146097 = r ∧
      n - 1 = 146097 * a + r ∧ 0 ≤ r ∧ r < 146097 := ⟨_, _, rfl, rfl, by omega⟩
  rw [ha, hr]
  obtain ⟨b, s, hb, hs, hrs⟩ : ∃ b s, r / 36524 = b ∧ r % 36524 = s ∧
      r = 36524 * b + s ∧ 0 ≤ s ∧ s < 36524 ∧ 0 ≤ b ∧ b ≤ 4 := ⟨_, _, rfl, rfl, by omega⟩
  rw [hb, hs]
  obtain ⟨c, t, hc, ht, hst⟩ : ∃ c t, s / 1461 = c ∧ s % 1461 = t ∧
      s = 1461 * c + t ∧ 0 ≤ t ∧ t < 1461 ∧ 0 ≤ c ∧ c < 25 := ⟨_, _, rfl, rfl, by omega⟩
  rw [hc, ht]
  obtain ⟨d, u, hd, hu, htu⟩ : ∃ d u, t / 365 = d ∧ t % 365 = u ∧
      t = 365 * d + u ∧ 0 ≤ u ∧ u < 365 ∧ 0 ≤ d ∧ d ≤ 4 := ⟨_, _, rfl, rfl, by omega⟩
  rw [hd, hu]
  clear ha hr hb hs hc ht hd hu
  split_ifs with hlast
  · -- the last day of a cycle of 4 or of 400 years, of which the year before is the last
    obtain ⟨b', c', hb', hc', hleap, hyear, hcycles⟩ : ∃ b' c' : ℤ, (0 ≤ b' ∧ b' < 4) ∧
        (0 ≤ c' ∧ c' < 25) ∧ (c' ≠ 24 ∨ b' = 3) ∧
        a * 400 + 1 + b * 100 + c * 4 + d - 1 = a * 400 + 1 + b' * 100 + c' * 4 + 3 ∧
        36524 * b + 1461 * c + 365 * d = 36524 * b' + 1461 * c' + 1460 := by
      by_cases hd : d = 4
      · exact ⟨b, c, by omega, by omega, by omega, by omega, by omega⟩
      · exact ⟨3, 24, by omega, by omega, by omega, by omega, by omega⟩
    have hd' : (0 : ℤ) ≤ 3 ∧ (3 : ℤ) < 4 := by decide
    unfold ordinal
    dsimp only
    rw [hyear, daysBeforeYear_cycles hb' hc' hd', decide_eq_true ((isLeap_cycles hb' hc' hd').mpr
      ⟨rfl, hleap⟩)]
    show _ + ((335 : ℕ) : ℤ) + ((31 : ℕ) : ℤ) = n
    omega
  · have hb' : 0 ≤ b ∧ b < 4 := by omega
    have hc' : 0 ≤ c ∧ c < 25 := by omega
    have hd' : 0 ≤ d ∧ d < 4 := by omega
    have hday := daysBeforeMonth_monthDay (decide (d = 3 ∧ (c ≠ 24 ∨ b = 3))) u.toNat (by omega)
    unfold ordinal
    dsimp only
    rw [daysBeforeYear_cycles hb' hc' hd', decide_eq_decide.mpr (isLeap_cycles hb' hc' hd')]
    omega

/-! ## Text -/

/-- A number with leading zeros. -/
def pad (width n : ℕ) : List Char :=
  List.replicate (width - (Nat.toDigits 10 n).length) '0' ++ Nat.toDigits 10 n

/-- `str` of a date. -/
def str (date : Date) : List Char :=
  signed (pad 4) date.year ++ '-' :: (pad 2 date.month ++ '-' :: pad 2 date.day)

example : str ⟨2020, 2, 9⟩ = "2020-02-09".toList := by decide

theorem isDigit_of_mem_pad {width n : ℕ} : ∀ c ∈ pad width n, c.isDigit = true := by
  intro c hc
  rcases List.mem_append.mp hc with hc | hc
  · rw [List.eq_of_mem_replicate hc]
    decide
  · exact isDigit_of_mem c hc

theorem pad_append_inj {width m n : ℕ} {cs cs' : List Char} (hcs : EndsNumber cs)
    (hcs' : EndsNumber cs') (h : pad width m ++ cs = pad width n ++ cs') : m = n ∧ cs = cs' := by
  have hends : ∀ {cs : List Char}, EndsNumber cs → ∀ c ∈ cs.head?, c.isDigit = false :=
    fun hcs c hc => Bool.eq_false_iff.mpr (hcs c hc)
  obtain ⟨hpad, hrest⟩ :=
    append_inj_of_kind isDigit_of_mem_pad isDigit_of_mem_pad (hends hcs) (hends hcs') h
  have hread : ∀ n, Nat.ofDigitChars 10 (pad width n) 0 = n := fun n => by
    rw [pad, Nat.ofDigitChars_append, Nat.ofDigitChars_replicate_zero, Nat.mul_zero,
      Nat.ofDigitChars_ten_toDigits]
  have hvalue := congrArg (Nat.ofDigitChars 10 · 0) hpad
  rw [hread, hread] at hvalue
  exact ⟨hvalue, hrest⟩

theorem pad_ne_nil (width n : ℕ) : pad width n ≠ [] :=
  List.append_ne_nil_of_right_ne_nil _ (List.length_pos_iff.mp Nat.length_toDigits_pos)

/-- **Round trip.**  A date is read back from its text. -/
theorem str_injective : Function.Injective str := by
  rintro ⟨year, month, day⟩ ⟨year', month', day'⟩ h
  have hdash : ∀ cs : List Char, EndsNumber ('-' :: cs) := fun cs c hc => by
    cases hc
    decide
  obtain ⟨hyear, hrest⟩ := signed_append_inj
    (fun _ => digits_append_ne isDigit_of_mem_pad (pad_ne_nil _ _) (by decide))
    (fun _ _ => pad_append_inj (hdash _) (hdash _)) h
  obtain ⟨hmonth, hrest⟩ := pad_append_inj (hdash _) (hdash _) (List.cons.inj hrest).2
  have hend : EndsNumber [] := fun c hc => by cases hc
  have hday := (List.cons.inj hrest).2
  rw [← List.append_nil (pad 2 day), ← List.append_nil (pad 2 day')] at hday
  obtain ⟨hday, -⟩ := pad_append_inj hend hend hday
  dsimp only at hyear hmonth hday
  rw [hyear, hmonth, hday]

/-- `str` of the date of a day, counted from the first of January 1970. -/
def dayStr (day : ℤ) : List Char := (ofOrdinal (day + 719163)).str

theorem dayStr_injective : Function.Injective dayStr := by
  intro day day' h
  have hdate := congrArg ordinal (str_injective h)
  rw [ordinal_ofOrdinal, ordinal_ofOrdinal] at hdate
  exact add_right_cancel hdate

end Date

end Python

import WalletUsers.Python.Decimal

/-!
# `str` of a decimal

The text of a decimal keeps its digits and its exponent: a nonnegative decimal can be read back from
it (`read_str`).
-/

namespace Python.Decimal

/-- The digits after the decimal point, with the point. -/
def point (b : List Char) : List Char := if b = [] then [] else '.' :: b

/-- `E+n` or `E-n`, nothing for zero. -/
def exponent (e : ℤ) : List Char :=
  if e = 0 then [] else 'E' :: (if 0 < e then '+' else '-') :: Nat.toDigits 10 e.natAbs

/-- The digits with the decimal point at `dotplace`: those to its left and to its right. -/
def layout (int : List Char) (dotplace : ℤ) : List Char × List Char :=
  let zeros := fun n : ℤ => List.replicate n.toNat '0'
  if dotplace ≤ 0 then (['0'], zeros (-dotplace) ++ int)
  else if int.length ≤ dotplace then (int ++ zeros (dotplace - int.length), [])
  else (int.take dotplace.toNat, int.drop dotplace.toNat)

/-- `str`. -/
def str (d : Decimal) : String :=
  let int := Nat.toDigits 10 d.coef.natAbs
  let leftdigits := d.exp + int.length
  let dotplace := if d.exp ≤ 0 ∧ -6 < leftdigits then leftdigits else 1
  let sign := if d.coef < 0 then ['-'] else []
  let parts := layout int dotplace
  String.ofList (sign ++ (parts.1 ++ point parts.2 ++ exponent (leftdigits - dotplace)))

example : (str ⟨150, -2⟩, str ⟨5, -3⟩, str ⟨12, 1⟩, str ⟨1, -7⟩) =
    ("1.50", "0.005", "1.2E+2", "1E-7") := by decide +kernel

/-! ## Reading back -/

/-- The digits of a text. -/
def readCoef (cs : List Char) : ℕ :=
  Nat.ofDigitChars 10 ((cs.takeWhile (· ≠ 'E')).filter (· ≠ '.')) 0

/-- The exponent that is written out. -/
def readExponent : List Char → ℤ
  | _ :: c :: ds => if c = '+' then Nat.ofDigitChars 10 ds 0 else -Nat.ofDigitChars 10 ds 0
  | _ => 0

/-- The decimal of a text. -/
def read (cs : List Char) : Decimal :=
  ⟨readCoef cs, readExponent (cs.dropWhile (· ≠ 'E')) -
    (((cs.takeWhile (· ≠ 'E')).dropWhile (· ≠ '.')).length - 1 : ℕ)⟩

section Read

variable {a b : List Char}

theorem readExponent_exponent (e : ℤ) : readExponent (exponent e) = e := by
  unfold exponent
  split_ifs with h₀ h₁
  · exact h₀.symm
  · rw [readExponent, if_pos rfl, Nat.ofDigitChars_ten_toDigits]
    omega
  · rw [readExponent, if_neg (by decide), Nat.ofDigitChars_ten_toDigits]
    omega

/-- The text of digits, a point, digits and an exponent. -/
theorem read_append (ha : ∀ c ∈ a, c.isDigit) (hb : ∀ c ∈ b, c.isDigit) (e : ℤ) :
    read (a ++ point b ++ exponent e) = ⟨Nat.ofDigitChars 10 (a ++ b) 0, e - b.length⟩ := by
  have hne : ∀ {c : Char}, c.isDigit → c ≠ 'E' ∧ c ≠ '.' := by
    rintro c hc
    constructor <;> rintro rfl <;> cases hc
  have hmantissa : ∀ c ∈ a ++ point b, decide (c ≠ 'E') = true := by
    intro c hc
    rw [decide_eq_true_iff]
    unfold point at hc
    split_ifs at hc with hnil
    · rw [List.append_nil] at hc
      exact (hne (ha c hc)).1
    · rcases List.mem_append.mp hc with hc | hc
      · exact (hne (ha c hc)).1
      · rcases List.mem_cons.mp hc with rfl | hc
        · decide
        · exact (hne (hb c hc)).1
  have htake : (a ++ point b ++ exponent e).takeWhile (· ≠ 'E') = a ++ point b := by
    rw [List.takeWhile_append_of_pos hmantissa]
    unfold exponent
    split_ifs <;> simp
  have hdrop : (a ++ point b ++ exponent e).dropWhile (· ≠ 'E') = exponent e := by
    rw [List.dropWhile_append_of_pos hmantissa]
    unfold exponent
    split_ifs <;> simp
  have hfilter : (a ++ point b).filter (· ≠ '.') = a ++ b := by
    have hkeep : ∀ l : List Char, (∀ c ∈ l, c.isDigit) → l.filter (· ≠ '.') = l :=
      fun l hl => List.filter_eq_self.mpr fun c hc => decide_eq_true (hne (hl c hc)).2
    rw [List.filter_append, hkeep a ha]
    unfold point
    split_ifs with hnil
    · simp [hnil]
    · rw [List.filter_cons_of_neg (by decide), hkeep b hb]
  have hfrac : ((a ++ point b).dropWhile (· ≠ '.')).length - 1 = b.length := by
    rw [List.dropWhile_append_of_pos fun c hc => decide_eq_true (hne (ha c hc)).2]
    unfold point
    split_ifs with hnil
    · simp [hnil]
    · simp
  unfold read readCoef
  rw [htake, hdrop, readExponent_exponent, hfilter, hfrac]

end Read

/-- The layout of digits adds zeros on the left at most. -/
theorem layout_spec {int : List Char} {dotplace : ℤ} (h : dotplace ≤ int.length) :
    (∃ k, (layout int dotplace).1 ++ (layout int dotplace).2 = List.replicate k '0' ++ int) ∧
      ((layout int dotplace).2.length : ℤ) = int.length - dotplace := by
  unfold layout
  dsimp only
  split_ifs with h₁ h₂
  · refine ⟨⟨(-dotplace).toNat + 1, rfl⟩, ?_⟩
    rw [List.length_append, List.length_replicate]
    omega
  · have hzero : dotplace - int.length = 0 := by omega
    refine ⟨⟨0, by simp [hzero]⟩, ?_⟩
    rw [List.length_nil]
    omega
  · refine ⟨⟨0, List.take_append_drop _ _⟩, ?_⟩
    rw [List.length_drop]
    omega

/-- A nonnegative decimal can be read back from its text. -/
theorem read_str {d : Decimal} (h : 0 ≤ d.coef) : read d.str.toList = d := by
  unfold str
  extract_lets int leftdigits dotplace sign parts
  have hpos : 0 < int.length := Nat.length_toDigits_pos
  have hdigit : ∀ c ∈ int, c.isDigit :=
    fun c hc => Nat.isDigit_of_mem_toDigits (by decide) le_rfl hc
  have hplace : dotplace ≤ int.length := by
    unfold dotplace leftdigits
    split_ifs <;> omega
  obtain ⟨⟨k, hk⟩, hlength⟩ := layout_spec hplace
  have hparts : ∀ c ∈ parts.1 ++ parts.2, c.isDigit := by
    intro c hc
    rw [hk] at hc
    rcases List.mem_append.mp hc with hc | hc
    · rw [List.eq_of_mem_replicate hc]
      decide
    · exact hdigit c hc
  have hcoef : (Nat.ofDigitChars 10 (parts.1 ++ parts.2) 0 : ℤ) = d.coef := by
    rw [hk, Nat.ofDigitChars_append, Nat.ofDigitChars_replicate_zero, Nat.mul_zero,
      Nat.ofDigitChars_ten_toDigits]
    omega
  have hexp : leftdigits - dotplace - parts.2.length = d.exp := by
    rw [hlength]
    unfold leftdigits
    omega
  have hsign : sign = [] := if_neg (not_lt.mpr h)
  rw [hsign, List.nil_append, String.toList_ofList,
    read_append (fun c hc => hparts c (List.mem_append_left _ hc))
      (fun c hc => hparts c (List.mem_append_right _ hc)), hcoef, hexp]

theorem str_inj {d d' : Decimal} (h : 0 ≤ d.coef) (h' : 0 ≤ d'.coef) (heq : d.str = d'.str) :
    d = d' := by
  rw [← read_str h, heq, read_str h']

end Python.Decimal

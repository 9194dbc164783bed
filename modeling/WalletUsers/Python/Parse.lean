import Mathlib.Data.BitVec
import WalletUsers.Python.DecimalText
import WalletUsers.Python.Loads
import WalletUsers.Python.Text

/-!
# Numbers and ids from strings

`Decimal(s)` and `UUID(s)`.  The names of the infinities and the NaNs, and digits outside ASCII, are no
`Decimal` here; of the forms of an id, the hyphenated one is read.

What `str` has written is read back, digits, sign and exponent (`ofString_str`, `uuidOf_uuidStr`).
-/

namespace Python

namespace Decimal

/-! ## Decimals -/

/-- A sign that may be left out. -/
def scanSign : List Char → ℤ × List Char
  | '-' :: cs => (-1, cs)
  | '+' :: cs => (1, cs)
  | cs => (1, cs)

/-- The exponent part, up to the end. -/
def scanExponent : List Char → Option ℤ
  | [] => some 0
  | c :: cs =>
    let sign := (scanSign cs).1
    let ds := (scanSign cs).2
    if (c = 'e' ∨ c = 'E') ∧ ds ≠ [] ∧ ds.all Char.isDigit then
      some (sign * Nat.ofDigitChars 10 ds 0)
    else none

/-- The digits after a decimal point, and what follows them. -/
def scanFraction : List Char → List Char × List Char
  | '.' :: cs => (cs.takeWhile Char.isDigit, cs.dropWhile Char.isDigit)
  | cs => ([], cs)

/-- A number without a sign. -/
def scanNumber (sign : ℤ) (cs : List Char) : Option Decimal := do
  let int := cs.takeWhile Char.isDigit
  let (fraction, rest) := scanFraction (cs.dropWhile Char.isDigit)
  let exp ← scanExponent rest
  if int ++ fraction = [] then none
  else return ⟨sign * Nat.ofDigitChars 10 (int ++ fraction) 0, exp - fraction.length⟩

/-- `Decimal(s)`; blanks around a number and underscores in it mean nothing. -/
def ofString (s : String) : Option Decimal :=
  let cs := (Python.strip s).toList.filter (· ≠ '_')
  scanNumber (scanSign cs).1 (scanSign cs).2

example : (ofString " -1_0.50E+3\n", ofString ".5", ofString ".", ofString "1e") =
    (some ⟨-1050, 1⟩, some ⟨5, -1⟩, none, none) := by decide +kernel

/-! ### What is written is read back -/

variable {a b : List Char}

theorem scanExponent_digits {c : Char} {sign : ℤ} {n : ℕ}
    (h : scanSign (c :: Nat.toDigits 10 n) = (sign, Nat.toDigits 10 n)) :
    scanExponent ('E' :: c :: Nat.toDigits 10 n) = some (sign * n) := by
  have hdigits : (Nat.toDigits 10 n).all Char.isDigit = true :=
    List.all_eq_true.mpr fun d hd => Nat.isDigit_of_mem_toDigits (by decide) le_rfl hd
  rw [scanExponent, h]
  dsimp only
  rw [if_pos ⟨.inr rfl, Nat.toDigits_ne_nil, hdigits⟩, Nat.ofDigitChars_ten_toDigits]

theorem scanExponent_exponent (e : ℤ) : scanExponent (exponent e) = some e := by
  unfold exponent
  split_ifs with h₀ h₁
  · rw [h₀]
    rfl
  · rw [scanExponent_digits rfl]
    congr 1
    omega
  · rw [scanExponent_digits rfl]
    congr 1
    omega

theorem endsNumber_exponent (e : ℤ) : EndsNumber (exponent e) := by
  intro c hc
  unfold exponent at hc
  split_ifs at hc <;> cases hc <;> decide

theorem endsNumber_point (e : ℤ) : EndsNumber (point b ++ exponent e) := by
  unfold point
  split_ifs
  · exact endsNumber_exponent e
  · intro c hc
    cases hc
    decide

/-- Digits are read up to their end. -/
theorem takeWhile_digits {ds cs : List Char} (hds : ∀ c ∈ ds, c.isDigit) (hcs : EndsNumber cs) :
    (ds ++ cs).takeWhile Char.isDigit = ds ∧ (ds ++ cs).dropWhile Char.isDigit = cs := by
  rw [List.takeWhile_append_of_pos hds, List.dropWhile_append_of_pos hds]
  rcases cs with _ | ⟨c, cs⟩
  · simp
  · simp [hcs c rfl]

theorem scanFraction_point (hb : ∀ c ∈ b, c.isDigit) (e : ℤ) :
    scanFraction (point b ++ exponent e) = (b, exponent e) := by
  obtain ⟨htake, hdrop⟩ := takeWhile_digits hb (endsNumber_exponent e)
  unfold point
  split_ifs with hnil
  · subst hnil
    unfold exponent
    split_ifs <;> rfl
  · exact Prod.ext htake hdrop

/-- The text of digits, a point, digits and an exponent. -/
theorem scanNumber_append (ha : ∀ c ∈ a, c.isDigit) (hb : ∀ c ∈ b, c.isDigit) (hne : a ++ b ≠ [])
    (sign e : ℤ) : scanNumber sign (a ++ point b ++ exponent e) =
      some ⟨sign * Nat.ofDigitChars 10 (a ++ b) 0, e - b.length⟩ := by
  obtain ⟨htake, hdrop⟩ := takeWhile_digits ha (endsNumber_point (b := b) e)
  unfold scanNumber
  rw [List.append_assoc, htake, hdrop, scanFraction_point hb]
  dsimp only
  rw [scanExponent_exponent, Option.bind_eq_bind, Option.bind_some, if_neg hne, Option.pure_def]

theorem scanSign_of_digit {cs : List Char} (h : ∃ c ∈ cs.head?, c.isDigit) :
    scanSign cs = (1, cs) := by
  obtain ⟨c, hc, hdigit⟩ := h
  unfold scanSign
  split
  · cases hc
    cases hdigit
  · cases hc
    cases hdigit
  · rfl

theorem layout_ne_nil {int : List Char} (h : int ≠ []) (dotplace : ℤ) :
    (layout int dotplace).1 ≠ [] := by
  have hpos := List.length_pos_iff.mpr h
  unfold layout
  dsimp only
  split_ifs
  · simp
  · simp [h]
  · rw [← List.length_pos_iff, List.length_take]
    omega

/-- The signs in the text of a decimal that are not digits. -/
def marks : List Char := ['-', '+', '.', 'E']

theorem mark_of_mem_point {c : Char} (hb : ∀ c ∈ b, c.isDigit) (h : c ∈ point b) :
    c.isDigit ∨ c ∈ marks := by
  unfold point at h
  split_ifs at h
  · cases h
  · rcases List.mem_cons.mp h with rfl | h
    · exact .inr (by decide)
    · exact .inl (hb c h)

theorem mark_of_mem_exponent {c : Char} {e : ℤ} (h : c ∈ exponent e) : c.isDigit ∨ c ∈ marks := by
  unfold exponent at h
  split_ifs at h
  · cases h
  all_goals
    rcases List.mem_cons.mp h with rfl | h
    · exact .inr (by decide)
    rcases List.mem_cons.mp h with rfl | h
    · exact .inr (by decide)
    · exact .inl (Nat.isDigit_of_mem_toDigits (by decide) le_rfl h)

/-- Blanks and underscores do not occur among digits and signs. -/
theorem filter_strip {s : String} (h : ∀ c ∈ s.toList, c.isDigit ∨ c ∈ marks) :
    (Python.strip s).toList.filter (· ≠ '_') = s.toList := by
  have hspace : ∀ c ∈ s.toList, isSpace c = false := by
    intro c hc
    rcases h c hc with hdigit | hmark
    · have hrange : 48 ≤ c.toNat ∧ c.toNat ≤ 57 := by
        simpa [Char.isDigit, UInt32.le_iff_toNat_le] using hdigit
      simp [isSpace]
      omega
    · have hall : marks.all (fun c => !isSpace c) = true := by decide
      simpa using List.all_eq_true.mp hall c hmark
  have hkeep : ∀ l : List Char, (∀ c ∈ l, isSpace c = false) → l.dropWhile isSpace = l := by
    intro l hl
    cases l with
    | nil => rfl
    | cons c l => exact List.dropWhile_cons_of_neg (by simp [hl c List.mem_cons_self])
  have hstrip : Python.strip s = s := by
    rw [Python.strip, hkeep _ hspace, hkeep _ fun c hc => hspace c (List.mem_reverse.mp hc),
      List.reverse_reverse, String.ofList_toList]
  rw [hstrip, List.filter_eq_self]
  intro c hc
  rcases h c hc with hdigit | hmark
  · rw [decide_eq_true_iff]
    rintro rfl
    cases hdigit
  · have hall : marks.all (fun c => decide (c ≠ '_')) = true := by decide
    exact List.all_eq_true.mp hall c hmark

/-- The parts of the text of a decimal. -/
structure Parts (d : Decimal) (a b : List Char) (e : ℤ) : Prop where
  text : d.str.toList = (if d.coef < 0 then ['-'] else []) ++ (a ++ point b ++ exponent e)
  left : ∀ c ∈ a, c.isDigit
  right : ∀ c ∈ b, c.isDigit
  nonempty : a ≠ []
  coef : Nat.ofDigitChars 10 (a ++ b) 0 = d.coef.natAbs
  exp : e - b.length = d.exp

theorem exists_parts (d : Decimal) : ∃ a b e, Parts d a b e := by
  let int := Nat.toDigits 10 d.coef.natAbs
  let leftdigits := d.exp + int.length
  let dotplace := if d.exp ≤ 0 ∧ -6 < leftdigits then leftdigits else 1
  let parts := layout int dotplace
  have hpos : 0 < int.length := Nat.length_toDigits_pos
  have hdigit : ∀ c ∈ int, c.isDigit :=
    fun c hc => Nat.isDigit_of_mem_toDigits (by decide) le_rfl hc
  have hplace : dotplace ≤ int.length := by
    unfold dotplace leftdigits
    split_ifs <;> omega
  obtain ⟨⟨k, hk⟩, hlength⟩ := layout_spec hplace
  have hparts : ∀ c ∈ parts.1 ++ parts.2, c.isDigit := by
    intro c hc
    rw [hk] at hc
    rcases List.mem_append.mp hc with hc | hc
    · rw [List.eq_of_mem_replicate hc]
      decide
    · exact hdigit c hc
  refine ⟨parts.1, parts.2, leftdigits - dotplace, String.toList_ofList,
    fun c hc => hparts c (List.mem_append_left _ hc),
    fun c hc => hparts c (List.mem_append_right _ hc),
    layout_ne_nil (List.length_pos_iff.mp hpos) _, ?_, ?_⟩
  · rw [hk, Nat.ofDigitChars_append, Nat.ofDigitChars_replicate_zero, Nat.mul_zero,
      Nat.ofDigitChars_ten_toDigits]
  · rw [hlength]
    unfold leftdigits
    omega

namespace Parts

variable {d : Decimal} {e : ℤ}

theorem marks_of_mem (h : Parts d a b e) : ∀ c ∈ d.str.toList, c.isDigit ∨ c ∈ marks := by
  intro c hc
  rw [h.text] at hc
  rcases List.mem_append.mp hc with hc | hc
  · split_ifs at hc
    · exact .inr (by rw [List.mem_singleton.mp hc]; decide)
    · cases hc
  rcases List.mem_append.mp hc with hc | hc
  · rcases List.mem_append.mp hc with hc | hc
    · exact .inl (h.left c hc)
    · exact mark_of_mem_point h.right hc
  · exact mark_of_mem_exponent hc

theorem scanSign_str (h : Parts d a b e) :
    scanSign d.str.toList = (if d.coef < 0 then -1 else 1, a ++ point b ++ exponent e) := by
  rw [h.text]
  split_ifs
  · rfl
  · obtain ⟨c, cs, hcs⟩ := List.exists_cons_of_ne_nil h.nonempty
    refine scanSign_of_digit ⟨c, ?_, h.left c (by simp [hcs])⟩
    simp [hcs]

end Parts

/-- **Round trip.**  A decimal is read back from its text. -/
theorem ofString_str (d : Decimal) : ofString d.str = some d := by
  obtain ⟨a, b, e, h⟩ := exists_parts d
  have hvalue : (if d.coef < 0 then -1 else 1) * (d.coef.natAbs : ℤ) = d.coef := by
    split_ifs <;> omega
  unfold ofString
  dsimp only
  rw [filter_strip h.marks_of_mem, h.scanSign_str]
  dsimp only
  rw [scanNumber_append h.left h.right (by simp [h.nonempty]), h.coef, h.exp, hvalue]

end Decimal

/-! ## Ids -/

/-- The hexadecimal digits of `n`, the last `width` of them. -/
def hexText : ℕ → ℕ → List Char
  | 0, _ => []
  | width + 1, n => hexText width (n / 16) ++ [hexDigit (n % 16)]

/-- The digits of an id in groups of 8, 4, 4, 4 and 12. -/
def groups (ds : List Char) : List (List Char) :=
  [ds.take 8, (ds.drop 8).take 4, (ds.drop 12).take 4, (ds.drop 16).take 4, ds.drop 20]

/-- `str` of an id. -/
def uuidStr (u : BitVec 128) : String :=
  String.ofList (['-'].intercalate (groups (hexText 32 u.toNat)))

/-- `int(s, 16)` of hexadecimal digits. -/
def readHex (ds : List Char) : Option ℕ := ds.foldlM (fun n d => (hexOf d).map (16 * n + ·)) 0

/-- `UUID(s)`. -/
def uuidOf (s : String) : Option (BitVec 128) :=
  let parts := s.toList.splitOn '-'
  if parts.map List.length = [8, 4, 4, 4, 12] then
    (readHex parts.flatten).map (BitVec.ofNat 128)
  else none

example : uuidStr 0x123e4567e89b12d3a456426614174000 = "123e4567-e89b-12d3-a456-426614174000" := by
  decide +kernel

theorem length_hexText (width n : ℕ) : (hexText width n).length = width := by
  induction width generalizing n with
  | zero => rfl
  | succ width ih => rw [hexText, List.length_append, ih, List.length_singleton]

theorem not_mem_hexText (width n : ℕ) : '-' ∉ hexText width n := by
  induction width generalizing n with
  | zero => exact List.not_mem_nil
  | succ width ih =>
    have hdigit : ∀ m < 16, '-' ≠ hexDigit m := by decide
    rw [hexText, List.mem_append, List.mem_singleton]
    rintro (h | h)
    · exact ih _ h
    · exact hdigit _ (Nat.mod_lt _ (by decide)) h

theorem readHex_hexText (width n : ℕ) : readHex (hexText width n) = some (n % 16 ^ width) := by
  induction width generalizing n with
  | zero =>
    rw [pow_zero, Nat.mod_one]
    rfl
  | succ width ih =>
    have hmod : n % 16 ^ (width + 1) = 16 * (n / 16 % 16 ^ width) + n % 16 := by
      rw [pow_succ', Nat.mod_mul, Nat.add_comm]
    unfold readHex at ih ⊢
    rw [hexText, List.foldlM_append, ih, Option.bind_eq_bind, Option.bind_some, List.foldlM_cons,
      hexOf_hexDigit _ (Nat.mod_lt _ (by decide)), hmod]
    rfl

theorem flatten_groups (ds : List Char) : (groups ds).flatten = ds := by
  have hsplit : ∀ m n, (ds.drop m).take n ++ ds.drop (m + n) = ds.drop m := fun m n => by
    rw [← List.drop_drop, List.take_append_drop]
  simp only [groups, List.flatten_cons, List.flatten_nil, List.append_nil]
  rw [hsplit 16 4, hsplit 12 4, hsplit 8 4, List.take_append_drop]

/-- **Round trip.**  An id is read back from its text. -/
theorem uuidOf_uuidStr (u : BitVec 128) : uuidOf (uuidStr u) = some u := by
  have hlength := length_hexText 32 u.toNat
  have hgroups : ∀ g ∈ groups (hexText 32 u.toNat), '-' ∉ g := by
    intro g hg hmem
    refine not_mem_hexText 32 u.toNat ?_
    rw [← flatten_groups (hexText 32 u.toNat)]
    exact List.mem_flatten_of_mem hg hmem
  have hlengths : (groups (hexText 32 u.toNat)).map List.length = [8, 4, 4, 4, 12] := by
    simp [groups, hlength]
  unfold uuidOf uuidStr
  dsimp only
  rw [String.toList_ofList, List.splitOn_intercalate '-' hgroups (by simp [groups]), if_pos hlengths,
    flatten_groups, readHex_hexText]
  simp [u.isLt, Nat.mod_eq_of_lt]

end Python

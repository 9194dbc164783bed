import WalletUsers.Python.Json

/-!
# Python's `json.loads`

The text of a JSON value, read from the left: blanks may stand between any two tokens, the control
characters may not stand in a string, a name may be repeated.  Where the text is of a value that is
not a `Json` (a float, a negative number, a truth value, a string with half a surrogate pair) the
result is `none`, as it is for a text of no value.

What `json.dumps` has written is read back (`loads_text`).
-/

namespace Python

/-- What may stand between two tokens. -/
def isBlank (c : Char) : Bool := c = ' ' || c = '\t' || c = '\n' || c = '\r'

def skipBlank (cs : List Char) : List Char := cs.dropWhile isBlank

/-! ## Strings -/

/-- The value of a hexadecimal digit, of either case. -/
def hexOf (c : Char) : Option ℕ :=
  if '0' ≤ c ∧ c ≤ '9' then some (c.toNat - 48)
  else if 'a' ≤ c ∧ c ≤ 'f' then some (c.toNat - 87)
  else if 'A' ≤ c ∧ c ≤ 'F' then some (c.toNat - 55)
  else none

/-- Four hexadecimal digits. -/
def scanUnit : List Char → Option (ℕ × List Char)
  | a :: b :: c :: d :: cs => do
    let a ← hexOf a
    let b ← hexOf b
    let c ← hexOf c
    let d ← hexOf d
    return (4096 * a + 256 * b + 16 * c + d, cs)
  | _ => none

/-- The second half of a surrogate pair. -/
def scanLow (high : ℕ) : List Char → Option (Char × List Char)
  | '\\' :: 'u' :: cs => do
    let (low, cs) ← scanUnit cs
    if 0xdc00 ≤ low ∧ low < 0xe000 then
      return (Char.ofNat (0x10000 + 1024 * (high - 0xd800) + (low - 0xdc00)), cs)
    else none
  | _ => none

/-- What follows a backslash. -/
def scanEscape : List Char → Option (Char × List Char)
  | 'u' :: cs => do
    let (unit, cs) ← scanUnit cs
    if 0xd800 ≤ unit ∧ unit < 0xdc00 then scanLow unit cs
    else if 0xdc00 ≤ unit ∧ unit < 0xe000 then none
    else return (Char.ofNat unit, cs)
  | '"' :: cs => some ('"', cs)
  | '\\' :: cs => some ('\\', cs)
  | '/' :: cs => some ('/', cs)
  | 'b' :: cs => some ('\x08', cs)
  | 'f' :: cs => some ('\x0c', cs)
  | 'n' :: cs => some ('\n', cs)
  | 'r' :: cs => some ('\r', cs)
  | 't' :: cs => some ('\t', cs)
  | _ => none

/-- One character of a string. -/
def scanChar : List Char → Option (Char × List Char)
  | '\\' :: cs => scanEscape cs
  | c :: cs => if c < ' ' then none else some (c, cs)
  | [] => none

/-- The characters up to the quote that ends a string; there are less than `fuel` of them. -/
def scanChars : ℕ → List Char → Option (List Char × List Char)
  | 0, _ => none
  | _ + 1, '"' :: cs => some ([], cs)
  | fuel + 1, cs => do
    let (c, cs) ← scanChar cs
    let (s, cs) ← scanChars fuel cs
    return (c :: s, cs)

/-! ## Values -/

/-- The digits of a natural number, without leading zeros. -/
def scanNum : List Char → Option (Json × List Char)
  | '0' :: cs => some (.num 0, cs)
  | c :: cs =>
    if c.isDigit then
      some (.num (Nat.ofDigitChars 10 ((c :: cs).takeWhile Char.isDigit) 0),
        (c :: cs).dropWhile Char.isDigit)
    else none
  | [] => none

mutual

/-- A value. -/
def scanValue : ℕ → List Char → Option (Json × List Char)
  | 0, _ => none
  | fuel + 1, '"' :: cs => do
    let (s, cs) ← scanChars fuel cs
    return (.str (String.ofList s), cs)
  | fuel + 1, '[' :: cs =>
    match skipBlank cs with
    | ']' :: cs => some (.arr [], cs)
    | cs => do
      let (v, cs) ← scanValue fuel cs
      let (vs, cs) ← scanItems fuel (skipBlank cs)
      return (.arr (v :: vs), cs)
  | fuel + 1, '{' :: cs =>
    match skipBlank cs with
    | '}' :: cs => some (.obj [], cs)
    | cs => do
      let (f, cs) ← scanField fuel cs
      let (fs, cs) ← scanFields fuel (skipBlank cs)
      return (.obj (f :: fs), cs)
  | _ + 1, 'n' :: 'u' :: 'l' :: 'l' :: cs => some (.null, cs)
  | _ + 1, cs => scanNum cs

/-- The other items of an array, and its end. -/
def scanItems : ℕ → List Char → Option (List Json × List Char)
  | _ + 1, ']' :: cs => some ([], cs)
  | fuel + 1, ',' :: cs => do
    let (v, cs) ← scanValue fuel (skipBlank cs)
    let (vs, cs) ← scanItems fuel (skipBlank cs)
    return (v :: vs, cs)
  | _, _ => none

/-- A name and its value. -/
def scanField : ℕ → List Char → Option ((String × Json) × List Char)
  | fuel + 1, '"' :: cs => do
    let (k, cs) ← scanChars fuel cs
    match skipBlank cs with
    | ':' :: cs =>
      let (v, cs) ← scanValue fuel (skipBlank cs)
      return ((String.ofList k, v), cs)
    | _ => none
  | _, _ => none

/-- The other fields of an object, and its end. -/
def scanFields : ℕ → List Char → Option (List (String × Json) × List Char)
  | _ + 1, '}' :: cs => some ([], cs)
  | fuel + 1, ',' :: cs => do
    let (f, cs) ← scanField fuel (skipBlank cs)
    let (fs, cs) ← scanFields fuel (skipBlank cs)
    return (f :: fs, cs)
  | _, _ => none

end

namespace Json

/-- `json.loads`. -/
def loads (s : String) : Option Json := do
  let (v, cs) ← scanValue s.toList.length (skipBlank s.toList)
  if skipBlank cs = [] then some v else none

/-- The entry of a name in an object: the last one stays. -/
def entry (fields : List (String × Json)) (name : String) : Option Json :=
  (fields.reverse.find? fun f => f.1 = name).map Prod.snd

end Json

/-! ## What is written is read back -/

theorem hexOf_hexDigit : ∀ n < 16, hexOf (hexDigit n) = some n := by decide

theorem scanUnit_hexDigits {n : ℕ} (h : n < 0x10000) (cs : List Char) :
    scanUnit (hexDigit (n / 4096 % 16) :: hexDigit (n / 256 % 16) :: hexDigit (n / 16 % 16) ::
      hexDigit (n % 16) :: cs) = some (n, cs) := by
  have hsum : 4096 * (n / 4096 % 16) + 256 * (n / 256 % 16) + 16 * (n / 16 % 16) + n % 16 = n := by
    omega
  simp only [scanUnit, hexOf_hexDigit _ (Nat.mod_lt _ (by decide : 0 < 16)), Option.bind_eq_bind,
    Option.bind_some, Option.pure_def, hsum]

theorem scanChar_unit {unit : ℕ} (h : unit < 0x10000) (hhigh : ¬(0xd800 ≤ unit ∧ unit < 0xdc00))
    (hlow : ¬(0xdc00 ≤ unit ∧ unit < 0xe000)) (cs : List Char) :
    scanChar (escapeUnit unit ++ cs) = some (Char.ofNat unit, cs) := by
  show (scanUnit (_ :: _ :: _ :: _ :: cs) >>= _) = _
  rw [scanUnit_hexDigits h, Option.bind_eq_bind, Option.bind_some]
  dsimp only
  rw [if_neg hhigh, if_neg hlow, Option.pure_def]

theorem scanChar_pair {high low : ℕ} (hhigh : 0xd800 ≤ high ∧ high < 0xdc00)
    (hlow : 0xdc00 ≤ low ∧ low < 0xe000) (cs : List Char) :
    scanChar (escapeUnit high ++ escapeUnit low ++ cs) =
      some (Char.ofNat (0x10000 + 1024 * (high - 0xd800) + (low - 0xdc00)), cs) := by
  show (scanUnit (_ :: _ :: _ :: _ :: (escapeUnit low ++ cs)) >>= _) = _
  rw [scanUnit_hexDigits (by omega), Option.bind_eq_bind, Option.bind_some]
  dsimp only
  rw [if_pos hhigh]
  show (scanUnit (_ :: _ :: _ :: _ :: cs) >>= _) = _
  rw [scanUnit_hexDigits (by omega), Option.bind_eq_bind, Option.bind_some]
  dsimp only
  rw [if_pos hlow, Option.pure_def]

theorem scanChar_escapeChar (c : Char) (cs : List Char) :
    scanChar (escapeChar c ++ cs) = some (c, cs) := by
  have hvalid : c.toNat < 0xd800 ∨ 0xdfff < c.toNat ∧ c.toNat < 0x110000 := c.valid
  unfold escapeChar
  split_ifs with h₁ h₂ h₃ h₄ h₅ h₆ h₇ h₈ h₉
  · subst h₁; rfl
  · subst h₂; rfl
  · subst h₃; rfl
  · subst h₄; rfl
  · subst h₅; rfl
  · subst h₆; rfl
  · subst h₇; rfl
  · rw [List.singleton_append]
    unfold scanChar
    split
    · simp_all
    · next heq =>
      obtain ⟨rfl, rfl⟩ := List.cons.inj heq
      exact if_neg (Char.not_lt.mpr h₈.1)
    · simp_all
  · refine (scanChar_unit h₉ (by omega) (by omega) cs).trans ?_
    rw [Char.ofNat_toNat]
  · have hc : 0x10000 + 1024 * (0xd800 + (c.toNat - 0x10000) / 1024 - 0xd800) +
        (0xdc00 + (c.toNat - 0x10000) % 1024 - 0xdc00) = c.toNat := by omega
    refine (scanChar_pair (by omega) (by omega) cs).trans ?_
    rw [hc, Char.ofNat_toNat]

theorem scanChars_cons {fuel : ℕ} {cs : List Char} (h : ∀ cs', cs ≠ '"' :: cs') :
    scanChars (fuel + 1) cs = do
      let (c, cs) ← scanChar cs
      let (s, cs) ← scanChars fuel cs
      return (c :: s, cs) := by
  rw [scanChars]
  exact h

/-- The characters of a string are read up to its closing quote. -/
theorem scanChars_escape {s : List Char} {fuel : ℕ} (h : s.length < fuel) (cs : List Char) :
    scanChars fuel (s.flatMap escapeChar ++ '"' :: cs) = some (s, cs) := by
  induction s generalizing fuel with
  | nil =>
    obtain ⟨fuel, rfl⟩ := Nat.exists_eq_add_one_of_ne_zero (Nat.ne_zero_of_lt h)
    rfl
  | cons c s ih =>
    obtain ⟨fuel, rfl⟩ := Nat.exists_eq_add_one_of_ne_zero (Nat.ne_zero_of_lt h)
    rw [List.flatMap_cons, List.append_assoc, scanChars_cons (escapeChar_ne_quote c _),
      scanChar_escapeChar]
    show (scanChars fuel _ >>= _) = _
    rw [ih (Nat.lt_of_succ_lt_succ h)]
    rfl

theorem length_le_escape (s : List Char) : s.length ≤ (s.flatMap escapeChar).length := by
  induction s with
  | nil => exact le_rfl
  | cons c s ih =>
    have hpos : 0 < (escapeChar c).length := by
      rw [List.length_pos_iff]
      intro hnil
      have hread := scanChar_escapeChar c []
      rw [hnil] at hread
      cases hread
    rw [List.flatMap_cons, List.length_append, List.length_cons]
    omega

/-- A quoted string is read back, its opening quote apart. -/
theorem scanChars_quote {s cs : List Char} {fuel : ℕ} (h : (quote s).length ≤ fuel + 1) :
    scanChars fuel (s.flatMap escapeChar ++ ['"'] ++ cs) = some (s, cs) := by
  have hlength := length_le_escape s
  rw [List.append_assoc]
  refine scanChars_escape ?_ cs
  simp only [quote, List.length_cons, List.length_append, List.length_nil] at h
  omega

/-- The digits of a number start with a zero only if it is zero. -/
theorem eq_zero_of_toDigits {n : ℕ} {cs : List Char} (h : Nat.toDigits 10 n = '0' :: cs) : n = 0 := by
  induction n using Nat.strong_induction_on generalizing cs with
  | _ n ih =>
    rcases lt_or_ge n 10 with hlt | hge
    · rw [Nat.toDigits_of_lt_base hlt] at h
      have hzero : ∀ m < 10, m.digitChar = '0' → m = 0 := by decide
      exact hzero n hlt (List.cons.inj h).1
    · rw [Nat.toDigits_of_base_le (by decide) hge] at h
      obtain ⟨c, ds, hds⟩ := List.exists_cons_of_ne_nil (Nat.toDigits_ne_nil (n := n / 10) (b := 10))
      rw [hds, List.cons_append] at h
      have hdiv := ih (n / 10) (by omega) (hds.trans (by rw [(List.cons.inj h).1]))
      omega

theorem scanNum_toDigits {n : ℕ} {cs : List Char} (hcs : EndsNumber cs) :
    scanNum (Nat.toDigits 10 n ++ cs) = some (.num n, cs) := by
  obtain ⟨c, ds, hds⟩ := List.exists_cons_of_ne_nil (Nat.toDigits_ne_nil (n := n) (b := 10))
  have hdigit : c.isDigit = true :=
    Nat.isDigit_of_mem_toDigits (b := 10) (n := n) (by decide) le_rfl (by simp [hds])
  have htake := takeWhile_toDigits (n := n) hcs
  have hdrop : (Nat.toDigits 10 n ++ cs).dropWhile Char.isDigit = cs := by
    have hall := List.takeWhile_append_dropWhile (p := Char.isDigit) (l := Nat.toDigits 10 n ++ cs)
    rw [htake] at hall
    exact List.append_cancel_left hall
  by_cases hc : c = '0'
  · subst hc
    obtain rfl := eq_zero_of_toDigits hds
    rfl
  · rw [hds, List.cons_append] at htake hdrop ⊢
    rw [scanNum]
    · rw [if_pos hdigit, htake, ← hds, Nat.ofDigitChars_ten_toDigits, hdrop]
    · exact fun heq => hc heq

namespace Json

/-! ## Values are read back -/

theorem skipBlank_of_head {c : Char} (hc : isBlank c = false) (cs : List Char) :
    skipBlank (c :: cs) = c :: cs := List.dropWhile_cons_of_neg (by simp [hc])

theorem skipBlank_text (v : Json) (cs : List Char) : skipBlank (v.text ++ cs) = v.text ++ cs := by
  obtain ⟨c, ds, hv, hc⟩ := firsts_text v cs
  rw [hv]
  refine skipBlank_of_head ?_ ds
  cases v with
  | null | str | arr | obj =>
    obtain rfl : c = _ := hc
    rfl
  | num n =>
    have hne : ∀ d : Char, d.isDigit = false → c ≠ d := by
      rintro d hd rfl
      exact absurd hc (by simp [firsts, hd])
    simp [isBlank, hne]

theorem scanValue_num {n fuel : ℕ} {cs : List Char} (hcs : EndsNumber cs) :
    scanValue (fuel + 1) (Nat.toDigits 10 n ++ cs) = some (.num n, cs) := by
  obtain ⟨c, ds, hds⟩ := List.exists_cons_of_ne_nil (Nat.toDigits_ne_nil (n := n) (b := 10))
  have hdigit : c.isDigit = true :=
    Nat.isDigit_of_mem_toDigits (b := 10) (n := n) (by decide) le_rfl (by simp [hds])
  have hne : ∀ d : Char, d.isDigit = false → ∀ cs', Nat.toDigits 10 n ++ cs ≠ d :: cs' := by
    intro d hd cs' heq
    rw [hds, List.cons_append] at heq
    obtain ⟨rfl, -⟩ := List.cons.inj heq
    rw [hdigit] at hd
    cases hd
  rw [scanValue]
  · exact scanNum_toDigits hcs
  · exact hne _ rfl
  · exact hne _ rfl
  · exact hne _ rfl
  · exact fun cs' => hne _ rfl _

theorem scanValue_cons {v : Json} {vs : List Json} {fuel : ℕ} {cs : List Char}
    (hv : scanValue fuel (v.text ++ (itemsText vs ++ cs)) = some (v, itemsText vs ++ cs))
    (hvs : scanItems fuel (skipBlank (itemsText vs ++ cs)) = some (vs, cs)) :
    scanValue (fuel + 1) ((arr (v :: vs)).text ++ cs) = some (arr (v :: vs), cs) := by
  rw [text, List.cons_append, List.append_assoc, scanValue, skipBlank_text]
  split
  · next heq => exact absurd heq (text_append_ne v _ _)
  · rw [hv]
    show (scanItems _ _ >>= _) = _
    rw [hvs]
    rfl

theorem scanField_text {k : String} {v : Json} {fuel : ℕ} {cs : List Char}
    (hk : (quote k.toList).length ≤ fuel + 1)
    (hv : scanValue fuel (v.text ++ cs) = some (v, cs)) :
    scanField (fuel + 1) (skipBlank (quote k.toList ++ ':' :: ' ' :: (v.text ++ cs))) =
      some ((k, v), cs) := by
  rw [quote, List.cons_append, skipBlank_of_head rfl, scanField, scanChars_quote hk]
  show (scanValue fuel (skipBlank (v.text ++ cs)) >>= _) = _
  rw [skipBlank_text, hv, Option.bind_eq_bind, Option.bind_some]
  simp only [String.ofList_toList, Option.pure_def]

theorem scanValue_cons_fields {f : String × Json} {fs : List (String × Json)} {fuel : ℕ}
    {cs : List Char}
    (hf : scanField fuel (skipBlank (quote f.1.toList ++
      ':' :: ' ' :: (f.2.text ++ (fieldsText fs ++ cs)))) = some (f, fieldsText fs ++ cs))
    (hfs : scanFields fuel (skipBlank (fieldsText fs ++ cs)) = some (fs, cs)) :
    scanValue (fuel + 1) ((obj (f :: fs)).text ++ cs) = some (obj (f :: fs), cs) := by
  have htext : (obj (f :: fs)).text ++ cs =
      '{' :: (quote f.1.toList ++ ':' :: ' ' :: (f.2.text ++ (fieldsText fs ++ cs))) := by
    rw [text]
    simp only [List.cons_append, List.append_assoc]
  rw [htext, scanValue]
  rw [quote, List.cons_append, skipBlank_of_head rfl] at hf ⊢
  show (scanField fuel _ >>= _) = _
  rw [hf]
  show (scanFields _ _ >>= _) = _
  rw [hfs]
  rfl

mutual

/-- A value is read off the front of a text. -/
theorem scanValue_text (v : Json) {fuel : ℕ} {cs : List Char} (hfuel : v.text.length ≤ fuel)
    (hcs : EndsNumber cs) : scanValue fuel (v.text ++ cs) = some (v, cs) := by
  obtain ⟨fuel, rfl⟩ : ∃ m, fuel = m + 1 := by
    obtain ⟨c, ds, hv, -⟩ := firsts_text v []
    rw [List.append_nil] at hv
    rw [hv, List.length_cons] at hfuel
    exact ⟨fuel - 1, by omega⟩
  cases v with
  | null => rfl
  | num n => exact scanValue_num hcs
  | str s =>
    rw [text] at hfuel
    show (scanChars fuel (s.toList.flatMap escapeChar ++ ['"'] ++ cs) >>= _) = _
    rw [scanChars_quote hfuel, Option.bind_eq_bind, Option.bind_some]
    simp only [String.ofList_toList, Option.pure_def]
  | arr vs =>
    cases vs with
    | nil => rfl
    | cons v vs =>
      rw [text, List.length_cons, List.length_append] at hfuel
      exact scanValue_cons (scanValue_text v (by omega) (endsNumber_itemsText vs cs))
        (scanItems_text vs (by omega) cs)
  | obj fs =>
    cases fs with
    | nil => rfl
    | cons f fs =>
      rw [text, List.length_cons, List.length_append, List.length_cons, List.length_cons,
        List.length_append] at hfuel
      have hquote : 2 ≤ (quote f.1.toList).length := by simp [quote]
      obtain ⟨fuel, rfl⟩ : ∃ m, fuel = m + 1 := ⟨fuel - 1, by omega⟩
      exact scanValue_cons_fields
        (scanField_text (by omega) (scanValue_text f.2 (by omega) (endsNumber_fieldsText fs cs)))
        (scanFields_text fs (by omega) cs)

theorem scanItems_text (vs : List Json) {fuel : ℕ} (hfuel : (itemsText vs).length ≤ fuel)
    (cs : List Char) : scanItems fuel (skipBlank (itemsText vs ++ cs)) = some (vs, cs) := by
  cases vs with
  | nil =>
    obtain ⟨fuel, rfl⟩ : ∃ m, fuel = m + 1 := ⟨fuel - 1, by simp [itemsText] at hfuel; omega⟩
    rfl
  | cons v vs =>
    rw [itemsText, List.length_cons, List.length_cons, List.length_append] at hfuel
    obtain ⟨fuel, rfl⟩ : ∃ m, fuel = m + 1 := ⟨fuel - 1, by omega⟩
    rw [itemsText, List.cons_append, List.cons_append, List.append_assoc,
      skipBlank_of_head rfl, scanItems]
    show (scanValue fuel (skipBlank (v.text ++ _)) >>= _) = _
    rw [skipBlank_text, scanValue_text v (by omega) (endsNumber_itemsText vs cs)]
    show (scanItems fuel _ >>= _) = _
    rw [scanItems_text vs (by omega) cs]
    rfl

theorem scanFields_text (fs : List (String × Json)) {fuel : ℕ}
    (hfuel : (fieldsText fs).length ≤ fuel) (cs : List Char) :
    scanFields fuel (skipBlank (fieldsText fs ++ cs)) = some (fs, cs) := by
  cases fs with
  | nil =>
    obtain ⟨fuel, rfl⟩ : ∃ m, fuel = m + 1 := ⟨fuel - 1, by simp [fieldsText] at hfuel; omega⟩
    rfl
  | cons f fs =>
    rw [fieldsText] at hfuel
    simp only [List.length_cons, List.length_append] at hfuel
    have hquote : 2 ≤ (quote f.1.toList).length := by simp [quote]
    obtain ⟨fuel, rfl⟩ : ∃ m, fuel = m + 2 := ⟨fuel - 2, by omega⟩
    have htext : fieldsText (f :: fs) ++ cs =
        ',' :: ' ' :: (quote f.1.toList ++ ':' :: ' ' :: (f.2.text ++ (fieldsText fs ++ cs))) := by
      rw [fieldsText]
      simp only [List.cons_append, List.append_assoc]
    rw [htext, skipBlank_of_head rfl, scanFields]
    show (scanField (fuel + 1) (skipBlank (quote _ ++ _)) >>= _) = _
    rw [scanField_text (by omega) (scanValue_text f.2 (by omega) (endsNumber_fieldsText fs cs))]
    show (scanFields (fuel + 1) _ >>= _) = _
    rw [scanFields_text fs (by omega) cs]
    rfl

end

/-- **Round trip.**  A value is read back from its text. -/
theorem loads_text (v : Json) : loads (String.ofList v.text) = some v := by
  have hend : EndsNumber [] := fun c hc => by cases hc
  have hskip := skipBlank_text v []
  have hscan := scanValue_text v le_rfl hend
  rw [List.append_nil] at hskip hscan
  rw [loads, String.toList_ofList, hskip, hscan]
  rfl

end Json

end Python

import Mathlib.Data.List.Sort
import Mathlib.Data.Nat.Digits.Defs

/-!
# Python's `json.dumps`

JSON values and their text with the default separators, in ASCII.  Two values with the same text are
the same (`text_injective`): a string can be read back from its escapes, and a number ends where the
digits do.
-/

namespace Python

/-- A JSON value, as far as the bodies of requests go: numbers are naturals. -/
inductive Json
  | null
  | num (n : ℕ)
  | str (s : String)
  | arr (items : List Json)
  | obj (fields : List (String × Json))

/-! ## Strings -/

/-- The hexadecimal digit of `n < 16`. -/
def hexDigit (n : ℕ) : Char := Char.ofNat (if n < 10 then 48 + n else 87 + n)

/-- A UTF-16 code unit as `\uXXXX`. -/
def escapeUnit (n : ℕ) : List Char :=
  ['\\', 'u', hexDigit (n / 4096 % 16), hexDigit (n / 256 % 16), hexDigit (n / 16 % 16),
    hexDigit (n % 16)]

/-- `ensure_ascii`: a character in a string. -/
def escapeChar (c : Char) : List Char :=
  if c = '"' then ['\\', '"']
  else if c = '\\' then ['\\', '\\']
  else if c = '\n' then ['\\', 'n']
  else if c = '\r' then ['\\', 'r']
  else if c = '\t' then ['\\', 't']
  else if c = '\x0c' then ['\\', 'f']
  else if c = '\x08' then ['\\', 'b']
  else if ' ' ≤ c ∧ c ≤ '~' then [c]
  else if c.toNat < 0x10000 then escapeUnit c.toNat
  else escapeUnit (0xd800 + (c.toNat - 0x10000) / 1024) ++
    escapeUnit (0xdc00 + (c.toNat - 0x10000) % 1024)

/-- A string between its quotes. -/
def quote (s : List Char) : List Char := '"' :: (s.flatMap escapeChar ++ ['"'])

/-! ## Values -/

namespace Json

mutual

/-- The text of a value. -/
def text : Json → List Char
  | null => ['n', 'u', 'l', 'l']
  | num n => Nat.toDigits 10 n
  | str s => quote s.toList
  | arr [] => ['[', ']']
  | arr (v :: vs) => '[' :: (v.text ++ itemsText vs)
  | obj [] => ['{', '}']
  | obj ((k, v) :: fs) => '{' :: (quote k.toList ++ ':' :: ' ' :: (v.text ++ fieldsText fs))

/-- The other items of an array, and its end. -/
def itemsText : List Json → List Char
  | [] => [']']
  | v :: vs => ',' :: ' ' :: (v.text ++ itemsText vs)

/-- The other fields of an object, and its end. -/
def fieldsText : List (String × Json) → List Char
  | [] => ['}']
  | (k, v) :: fs => ',' :: ' ' :: (quote k.toList ++ ':' :: ' ' :: (v.text ++ fieldsText fs))

end

mutual

/-- `sort_keys`: the value with the fields of every object in the order of their names. -/
def sortKeys : Json → Json
  | null => null
  | num n => num n
  | str s => str s
  | arr vs => arr (sortItems vs)
  | obj fs => obj ((sortFields fs).insertionSort fun f g => f.1 ≤ g.1)

def sortItems : List Json → List Json
  | [] => []
  | v :: vs => v.sortKeys :: sortItems vs

def sortFields : List (String × Json) → List (String × Json)
  | [] => []
  | (k, v) :: fs => (k, v.sortKeys) :: sortFields fs

end

/-- `json.dumps(value, sort_keys=True)`. -/
def dumps (v : Json) : String := String.ofList v.sortKeys.text

example : dumps (.arr [.null, .str "é\n", .num 10]) = "[null, \"\\u00e9\\n\", 10]" := by
  decide +kernel

end Json

/-! ## Reading back -/

/-- The value of a hexadecimal digit. -/
def hexValue (c : Char) : ℕ := if c.toNat < 97 then c.toNat - 48 else c.toNat - 87

/-- The code unit of four hexadecimal digits. -/
def hexUnit (a b c d : Char) : ℕ :=
  4096 * hexValue a + 256 * hexValue b + 16 * hexValue c + hexValue d

/-- The first character of the text of a string. -/
def readChar : List Char → Option (Char × List Char)
  | '\\' :: 'u' :: a :: b :: c :: d :: cs =>
    if 0xd800 ≤ hexUnit a b c d ∧ hexUnit a b c d < 0xdc00 then
      match cs with
      | '\\' :: 'u' :: a' :: b' :: c' :: d' :: cs' => some (Char.ofNat
          (0x10000 + 1024 * (hexUnit a b c d - 0xd800) + (hexUnit a' b' c' d' - 0xdc00)), cs')
      | _ => none
    else some (Char.ofNat (hexUnit a b c d), cs)
  | '\\' :: '"' :: cs => some ('"', cs)
  | '\\' :: '\\' :: cs => some ('\\', cs)
  | '\\' :: 'n' :: cs => some ('\n', cs)
  | '\\' :: 'r' :: cs => some ('\r', cs)
  | '\\' :: 't' :: cs => some ('\t', cs)
  | '\\' :: 'f' :: cs => some ('\x0c', cs)
  | '\\' :: 'b' :: cs => some ('\x08', cs)
  | '"' :: _ => none
  | c :: cs => some (c, cs)
  | [] => none

theorem hexValue_hexDigit : ∀ n < 16, hexValue (hexDigit n) = n := by decide

theorem hexUnit_escapeUnit {n : ℕ} (h : n < 0x10000) :
    hexUnit (hexDigit (n / 4096 % 16)) (hexDigit (n / 256 % 16)) (hexDigit (n / 16 % 16))
      (hexDigit (n % 16)) = n := by
  unfold hexUnit
  rw [hexValue_hexDigit _ (by omega), hexValue_hexDigit _ (by omega),
    hexValue_hexDigit _ (by omega), hexValue_hexDigit _ (by omega)]
  omega

/-- An escaped character can be read back. -/
theorem readChar_escapeChar (c : Char) (cs : List Char) :
    readChar (escapeChar c ++ cs) = some (c, cs) := by
  have hvalid : c.toNat < 0xd800 ∨ 0xdfff < c.toNat ∧ c.toNat < 0x110000 := c.valid
  unfold escapeChar
  split_ifs with h₁ h₂ h₃ h₄ h₅ h₆ h₇ h₈ h₉
  · subst h₁; rfl
  · subst h₂; rfl
  · subst h₃; rfl
  · subst h₄; rfl
  · subst h₅; rfl
  · subst h₆; rfl
  · subst h₇; rfl
  · rw [List.singleton_append]
    unfold readChar
    split <;> simp_all
  · have hunit := hexUnit_escapeUnit h₉
    have hnot : ¬(0xd800 ≤ c.toNat ∧ c.toNat < 0xdc00) := by omega
    simp only [escapeUnit, List.cons_append, List.nil_append, readChar, hunit, if_neg hnot,
      Char.ofNat_toNat]
  · have hhigh : 0xd800 + (c.toNat - 0x10000) / 1024 < 0xdc00 := by omega
    have hunit := hexUnit_escapeUnit (n := 0xd800 + (c.toNat - 0x10000) / 1024) (by omega)
    have hunit' := hexUnit_escapeUnit (n := 0xdc00 + (c.toNat - 0x10000) % 1024) (by omega)
    have hc : 0x10000 + 1024 * (0xd800 + (c.toNat - 0x10000) / 1024 - 0xd800) +
        (0xdc00 + (c.toNat - 0x10000) % 1024 - 0xdc00) = c.toNat := by omega
    simp only [escapeUnit, List.cons_append, List.nil_append, readChar, hunit, hunit', hc, hhigh,
      Nat.le_add_right, and_self, if_true, Char.ofNat_toNat]

/-- The end of a string is not the escape of a character. -/
theorem escapeChar_ne_quote (c : Char) (cs cs' : List Char) : escapeChar c ++ cs ≠ '"' :: cs' := by
  intro h
  have hread := readChar_escapeChar c cs
  rw [h] at hread
  cases hread

theorem escape_append_inj {s s' cs cs' : List Char}
    (h : s.flatMap escapeChar ++ '"' :: cs = s'.flatMap escapeChar ++ '"' :: cs') :
    s = s' ∧ cs = cs' := by
  induction s generalizing s' with
  | nil =>
    cases s' with
    | nil => exact ⟨rfl, (List.cons.inj h).2⟩
    | cons c s' =>
      rw [List.flatMap_cons, List.append_assoc] at h
      exact absurd h.symm (escapeChar_ne_quote c _ _)
  | cons c s ih =>
    rw [List.flatMap_cons, List.append_assoc] at h
    cases s' with
    | nil => exact absurd h (escapeChar_ne_quote c _ _)
    | cons d s' =>
      rw [List.flatMap_cons, List.append_assoc] at h
      have hread := readChar_escapeChar c (s.flatMap escapeChar ++ '"' :: cs)
      rw [h, readChar_escapeChar] at hread
      obtain ⟨hd, hrest⟩ := Prod.mk.inj (Option.some.inj hread)
      obtain ⟨hs, hcs⟩ := ih hrest.symm
      exact ⟨by rw [hd, hs], hcs⟩

/-- A quoted string ends where it says. -/
theorem quote_append_inj {s s' cs cs' : List Char} (h : quote s ++ cs = quote s' ++ cs') :
    s = s' ∧ cs = cs' := by
  simp only [quote, List.cons_append, List.append_assoc, List.nil_append] at h
  exact escape_append_inj (List.cons.inj h).2

/-- The text does not go on with a digit. -/
def EndsNumber (cs : List Char) : Prop := ∀ c ∈ cs.head?, ¬c.isDigit

theorem takeWhile_toDigits {n : ℕ} {cs : List Char} (h : EndsNumber cs) :
    (Nat.toDigits 10 n ++ cs).takeWhile Char.isDigit = Nat.toDigits 10 n := by
  have hdigits : ∀ c ∈ Nat.toDigits 10 n, c.isDigit = true :=
    fun c hc => Nat.isDigit_of_mem_toDigits (by decide) le_rfl hc
  rw [List.takeWhile_append_of_pos hdigits]
  rcases cs with _ | ⟨c, cs⟩
  · simp
  · simp [h c rfl]

theorem toDigits_inj {m n : ℕ} (h : Nat.toDigits 10 m = Nat.toDigits 10 n) : m = n := by
  have hm := Nat.ofDigitChars_ten_toDigits (n := m)
  rwa [h, Nat.ofDigitChars_ten_toDigits, eq_comm] at hm

theorem toDigits_append_inj {m n : ℕ} {cs cs' : List Char} (hcs : EndsNumber cs)
    (hcs' : EndsNumber cs') (h : Nat.toDigits 10 m ++ cs = Nat.toDigits 10 n ++ cs') :
    m = n ∧ cs = cs' := by
  have htake := congrArg (List.takeWhile Char.isDigit) h
  rw [takeWhile_toDigits hcs, takeWhile_toDigits hcs'] at htake
  rw [htake] at h
  exact ⟨toDigits_inj htake, List.append_cancel_left h⟩

namespace Json

theorem endsNumber_itemsText (vs : List Json) (cs : List Char) :
    EndsNumber (itemsText vs ++ cs) := by
  intro c hc
  cases vs <;> simp only [itemsText, List.cons_append, List.nil_append, List.head?_cons,
    Option.mem_def, Option.some.injEq] at hc <;> subst hc <;> decide

theorem endsNumber_fieldsText (fs : List (String × Json)) (cs : List Char) :
    EndsNumber (fieldsText fs ++ cs) := by
  intro c hc
  cases fs <;> simp only [fieldsText, List.cons_append, List.nil_append, List.head?_cons,
    Option.mem_def, Option.some.injEq] at hc <;> subst hc <;> decide

/-- The first characters of the values of the five kinds. -/
def firsts : Json → Char → Prop
  | null, c => c = 'n'
  | num _, c => c.isDigit
  | str _, c => c = '"'
  | arr _, c => c = '['
  | obj _, c => c = '{'

theorem firsts_text (v : Json) (cs : List Char) :
    ∃ c cs', v.text ++ cs = c :: cs' ∧ v.firsts c := by
  cases v with
  | null => exact ⟨_, _, rfl, rfl⟩
  | num n =>
    obtain ⟨c, cs', hc⟩ := List.exists_cons_of_ne_nil (Nat.toDigits_ne_nil (n := n) (b := 10))
    refine ⟨c, cs' ++ cs, by rw [text, hc]; rfl, ?_⟩
    exact Nat.isDigit_of_mem_toDigits (b := 10) (n := n) (by decide) le_rfl (by simp [hc])
  | str s => exact ⟨_, _, rfl, rfl⟩
  | arr vs => cases vs <;> exact ⟨_, _, rfl, rfl⟩
  | obj fs => cases fs <;> exact ⟨_, _, rfl, rfl⟩

theorem exists_firsts {v w : Json} {cs cs' : List Char} (h : v.text ++ cs = w.text ++ cs') :
    ∃ c, v.firsts c ∧ w.firsts c := by
  obtain ⟨c, ds, hv, hc⟩ := firsts_text v cs
  obtain ⟨d, ds', hw, hd⟩ := firsts_text w cs'
  rw [hv, hw] at h
  obtain ⟨rfl, -⟩ := List.cons.inj h
  exact ⟨c, hc, hd⟩

/-- A value does not start like the end of an array. -/
theorem text_append_ne (v : Json) (cs cs' : List Char) : v.text ++ cs ≠ ']' :: cs' := by
  intro h
  obtain ⟨c, ds, hv, hc⟩ := firsts_text v cs
  rw [hv] at h
  obtain ⟨rfl, -⟩ := List.cons.inj h
  cases v <;> exact absurd hc (by simp [firsts])

mutual

/-- A value can be read off the front of a text. -/
theorem text_append_inj (v w : Json) {cs cs' : List Char} (hcs : EndsNumber cs)
    (hcs' : EndsNumber cs') (h : v.text ++ cs = w.text ++ cs') : v = w ∧ cs = cs' := by
  obtain ⟨c, hv, hw⟩ := exists_firsts h
  cases v with
  | null =>
    cases w with
    | null => exact ⟨rfl, List.append_cancel_left h⟩
    | _ => exact absurd hw (by rw [hv]; simp [firsts])
  | num n =>
    cases w with
    | num m =>
      obtain ⟨rfl, hrest⟩ := toDigits_append_inj hcs hcs' h
      exact ⟨rfl, hrest⟩
    | _ => rw [hw] at hv; exact absurd hv (by simp [firsts])
  | str s =>
    cases w with
    | str s' =>
      obtain ⟨hs, hrest⟩ := quote_append_inj h
      exact ⟨by rw [String.toList_injective hs], hrest⟩
    | _ => exact absurd hw (by rw [hv]; simp [firsts])
  | arr vs =>
    cases w with
    | arr ws =>
      cases vs with
      | nil =>
        cases ws with
        | nil => exact ⟨rfl, List.append_cancel_left h⟩
        | cons w ws =>
          simp only [text, List.cons_append, List.append_assoc, List.cons.injEq, true_and] at h
          exact absurd h.symm (text_append_ne w _ _)
      | cons v vs =>
        rw [text, List.cons_append, List.append_assoc] at h
        cases ws with
        | nil => exact absurd (List.cons.inj h).2 (text_append_ne v _ _)
        | cons w ws =>
          rw [text, List.cons_append, List.append_assoc] at h
          obtain ⟨rfl, hrest⟩ := text_append_inj v w (endsNumber_itemsText vs cs)
            (endsNumber_itemsText ws cs') (List.cons.inj h).2
          obtain ⟨rfl, rfl⟩ := itemsText_append_inj vs ws hrest
          exact ⟨rfl, rfl⟩
    | _ => exact absurd hw (by rw [hv]; simp [firsts])
  | obj fs =>
    cases w with
    | obj gs =>
      cases fs with
      | nil =>
        cases gs with
        | nil => exact ⟨rfl, List.append_cancel_left h⟩
        | cons g gs => cases (List.cons.inj (List.cons.inj h).2).1
      | cons f fs =>
        cases gs with
        | nil => cases (List.cons.inj (List.cons.inj h).2).1
        | cons g gs =>
          simp only [text, List.cons_append, List.append_assoc, List.cons.injEq, true_and] at h
          obtain ⟨hk, hrest⟩ := quote_append_inj h
          obtain ⟨hv, hrest⟩ := text_append_inj f.2 g.2 (endsNumber_fieldsText fs cs)
            (endsNumber_fieldsText gs cs') (by simpa using hrest)
          obtain ⟨rfl, rfl⟩ := fieldsText_append_inj fs gs hrest
          exact ⟨by rw [Prod.ext (String.toList_injective hk) hv], rfl⟩
    | _ => exact absurd hw (by rw [hv]; simp [firsts])

theorem itemsText_append_inj (vs ws : List Json) {cs cs' : List Char}
    (h : itemsText vs ++ cs = itemsText ws ++ cs') : vs = ws ∧ cs = cs' := by
  cases vs with
  | nil =>
    cases ws with
    | nil => exact ⟨rfl, (List.cons.inj h).2⟩
    | cons w ws => cases (List.cons.inj h).1
  | cons v vs =>
    cases ws with
    | nil => cases (List.cons.inj h).1
    | cons w ws =>
      simp only [itemsText, List.cons_append, List.append_assoc, List.cons.injEq, true_and] at h
      obtain ⟨rfl, hrest⟩ := text_append_inj v w (endsNumber_itemsText vs cs)
        (endsNumber_itemsText ws cs') h
      obtain ⟨rfl, rfl⟩ := itemsText_append_inj vs ws hrest
      exact ⟨rfl, rfl⟩

theorem fieldsText_append_inj (fs gs : List (String × Json)) {cs cs' : List Char}
    (h : fieldsText fs ++ cs = fieldsText gs ++ cs') : fs = gs ∧ cs = cs' := by
  cases fs with
  | nil =>
    cases gs with
    | nil => exact ⟨rfl, (List.cons.inj h).2⟩
    | cons g gs => cases (List.cons.inj h).1
  | cons f fs =>
    cases gs with
    | nil => cases (List.cons.inj h).1
    | cons g gs =>
      simp only [fieldsText, List.cons_append, List.append_assoc, List.cons.injEq, true_and] at h
      obtain ⟨hk, hrest⟩ := quote_append_inj h
      obtain ⟨hv, hrest⟩ := text_append_inj f.2 g.2 (endsNumber_fieldsText fs cs)
        (endsNumber_fieldsText gs cs') (by simpa using hrest)
      obtain ⟨rfl, rfl⟩ := fieldsText_append_inj fs gs hrest
      exact ⟨by rw [Prod.ext (String.toList_injective hk) hv], rfl⟩

end

/-- Two values with the same text are the same. -/
theorem text_injective : Function.Injective text := by
  intro v w h
  have hend : EndsNumber [] := fun c hc => by cases hc
  exact (text_append_inj v w hend hend (by rw [h])).1

theorem sortKeys_eq_of_dumps_eq {v w : Json} (h : dumps v = dumps w) :
    v.sortKeys = w.sortKeys :=
  text_injective (String.ofList_injective h)

end Json

end Python

import WalletUsers.Python.Parse

/-!
# Python's `repr` of a string, and `str` of a number

Both are read back, whatever follows (`repr_append_inj`), or whatever follows but a digit
(`intStr_append_inj`).  Which characters beyond ASCII are printable is a matter of the Unicode tables, and
a parameter: those that are not are written as escapes.
-/

namespace Python

/-! ## Strings -/

/-- The quotes of a string: double ones where it has single ones only. -/
def quoteOf (s : List Char) : Char := if '\'' ∈ s ∧ '"' ∉ s then '"' else '\''

/-- A character between the quotes `q`. -/
def reprChar (printable : Char → Bool) (q c : Char) : List Char :=
  if c = q ∨ c = '\\' then ['\\', c]
  else if c = '\t' then ['\\', 't']
  else if c = '\n' then ['\\', 'n']
  else if c = '\r' then ['\\', 'r']
  else if ' ' ≤ c ∧ c ≤ '~' ∨ '\x7f' < c ∧ printable c = true then [c]
  else if c.toNat < 0x100 then '\\' :: 'x' :: hexText 2 c.toNat
  else if c.toNat < 0x10000 then '\\' :: 'u' :: hexText 4 c.toNat
  else '\\' :: 'U' :: hexText 8 c.toNat

/-- `repr`. -/
def repr (printable : Char → Bool) (s : List Char) : List Char :=
  quoteOf s :: (s.flatMap (reprChar printable (quoteOf s)) ++ [quoteOf s])

example : (repr (fun _ => false) "a'b\n".toList, repr (fun _ => false) "\"'é\\".toList) =
    ("\"a'b\\n\"".toList, "'\"\\'\\xe9\\\\'".toList) := by decide +kernel

/-- The next character between quotes, and what follows it. -/
def readReprChar : List Char → Option (Char × List Char)
  | '\\' :: 't' :: cs => some ('\t', cs)
  | '\\' :: 'n' :: cs => some ('\n', cs)
  | '\\' :: 'r' :: cs => some ('\r', cs)
  | '\\' :: 'x' :: cs => (readHex (cs.take 2)).map fun n => (Char.ofNat n, cs.drop 2)
  | '\\' :: 'u' :: cs => (readHex (cs.take 4)).map fun n => (Char.ofNat n, cs.drop 4)
  | '\\' :: 'U' :: cs => (readHex (cs.take 8)).map fun n => (Char.ofNat n, cs.drop 8)
  | '\\' :: c :: cs => some (c, cs)
  | c :: cs => some (c, cs)
  | [] => none

section Repr

variable {printable : Char → Bool} {q c : Char} {s s' cs cs' : List Char}

theorem quoteOf_cases (s : List Char) : quoteOf s = '\'' ∨ quoteOf s = '"' := by
  unfold quoteOf
  split_ifs
  · exact .inr rfl
  · exact .inl rfl

/-- A character is read back from its hexadecimal digits. -/
theorem readHex_take {width : ℕ} (h : c.toNat < 16 ^ width) (cs : List Char) :
    (readHex ((hexText width c.toNat ++ cs).take width)).map (fun n =>
      (Char.ofNat n, (hexText width c.toNat ++ cs).drop width)) = some (c, cs) := by
  have hlength := length_hexText width c.toNat
  rw [List.take_left' hlength, List.drop_left' hlength, readHex_hexText, Nat.mod_eq_of_lt h,
    Option.map_some, Char.ofNat_toNat]

theorem readReprChar_reprChar (hq : q = '\'' ∨ q = '"') (c : Char) (cs : List Char) :
    readReprChar (reprChar printable q c ++ cs) = some (c, cs) := by
  unfold reprChar
  split_ifs with h₁ h₂ h₃ h₄ h₅ h₆ h₇
  · rcases h₁ with rfl | rfl
    · rcases hq with rfl | rfl <;> rfl
    · rfl
  · subst h₂
    rfl
  · subst h₃
    rfl
  · subst h₄
    rfl
  · have hc : c ≠ '\\' := fun hc => h₁ (.inr hc)
    show readReprChar (c :: cs) = _
    unfold readReprChar
    split <;> simp_all
  · exact readHex_take h₆ cs
  · exact readHex_take h₇ cs
  · exact readHex_take c.val.toNat_lt cs

theorem reprChar_ne (hq : q = '\'' ∨ q = '"') (c : Char) (cs cs' : List Char) :
    reprChar printable q c ++ cs ≠ q :: cs' := by
  intro h
  have hq' : q ≠ '\\' := by rcases hq with rfl | rfl <;> decide
  unfold reprChar at h
  split_ifs at h with h₁ <;> first
    | exact hq' (List.cons.inj h).1.symm
    | exact h₁ (.inl (List.cons.inj h).1)

theorem reprChars_append_inj (hq : q = '\'' ∨ q = '"')
    (h : s.flatMap (reprChar printable q) ++ q :: cs = s'.flatMap (reprChar printable q) ++ q :: cs') :
    s = s' ∧ cs = cs' := by
  induction s generalizing s' with
  | nil =>
    cases s' with
    | nil => exact ⟨rfl, (List.cons.inj h).2⟩
    | cons c s' =>
      rw [List.flatMap_cons, List.append_assoc] at h
      exact absurd h.symm (reprChar_ne hq c _ _)
  | cons c s ih =>
    rw [List.flatMap_cons, List.append_assoc] at h
    cases s' with
    | nil => exact absurd h (reprChar_ne hq c _ _)
    | cons d s' =>
      rw [List.flatMap_cons, List.append_assoc] at h
      have hread : readReprChar (reprChar printable q c ++ (s.flatMap (reprChar printable q) ++ q :: cs)) =
          some (c, s.flatMap (reprChar printable q) ++ q :: cs) := readReprChar_reprChar hq c _
      rw [h, readReprChar_reprChar hq] at hread
      obtain ⟨rfl, hrest⟩ := Prod.mk.inj (Option.some.inj hread)
      obtain ⟨rfl, hcs⟩ := ih hrest.symm
      exact ⟨rfl, hcs⟩

/-- **Round trip.**  A string is read back from its `repr`, whatever follows. -/
theorem repr_append_inj (h : repr printable s ++ cs = repr printable s' ++ cs') :
    s = s' ∧ cs = cs' := by
  unfold repr at h
  rw [List.cons_append, List.cons_append, List.append_assoc, List.append_assoc] at h
  obtain ⟨hquote, hrest⟩ := List.cons.inj h
  rw [← hquote] at hrest
  exact reprChars_append_inj (quoteOf_cases s) hrest

end Repr

/-! ## Numbers -/

/-- A text ends where its characters are no longer of its kind. -/
theorem append_inj_of_kind {p : Char → Bool} {a a' cs cs' : List Char} (ha : ∀ c ∈ a, p c = true)
    (ha' : ∀ c ∈ a', p c = true) (hcs : ∀ c ∈ cs.head?, p c = false)
    (hcs' : ∀ c ∈ cs'.head?, p c = false) (h : a ++ cs = a' ++ cs') : a = a' ∧ cs = cs' := by
  have hnil : ∀ cs : List Char, (∀ c ∈ cs.head?, p c = false) → cs.takeWhile p = [] := by
    intro cs hcs
    cases cs with
    | nil => rfl
    | cons c cs => exact List.takeWhile_cons_of_neg (by rw [hcs c rfl]; decide)
  have htake := congrArg (List.takeWhile p) h
  rw [List.takeWhile_append_of_pos ha, List.takeWhile_append_of_pos ha', hnil cs hcs, hnil cs' hcs',
    List.append_nil, List.append_nil] at htake
  subst htake
  exact ⟨rfl, List.append_cancel_left h⟩

/-- A sign before the digits `f` of a number. -/
def signed (f : ℕ → List Char) (n : ℤ) : List Char := (if n < 0 then ['-'] else []) ++ f n.natAbs

/-- What is read back without a sign is read back with one. -/
theorem signed_append_inj {f : ℕ → List Char} {m n : ℤ} {cs cs' : List Char}
    (hsign : ∀ n cs cs', f n ++ cs ≠ '-' :: cs')
    (hf : ∀ m n, f m ++ cs = f n ++ cs' → m = n ∧ cs = cs')
    (h : signed f m ++ cs = signed f n ++ cs') : m = n ∧ cs = cs' := by
  unfold signed at h
  by_cases hm : m < 0 <;> by_cases hn : n < 0 <;> simp only [hm, hn, if_true, if_false] at h
  · obtain ⟨habs, hcs⟩ := hf _ _ (List.cons.inj h).2
    exact ⟨by omega, hcs⟩
  · exact absurd h.symm (hsign _ _ _)
  · exact absurd h (hsign _ _ _)
  · obtain ⟨habs, hcs⟩ := hf _ _ h
    exact ⟨by omega, hcs⟩

/-- `str` of an integer. -/
def intStr (n : ℤ) : List Char := signed (Nat.toDigits 10) n

theorem digits_append_ne {ds : List Char} (hds : ∀ c ∈ ds, c.isDigit = true) (hne : ds ≠ []) {c : Char}
    (hc : c.isDigit = false) (cs cs' : List Char) : ds ++ cs ≠ c :: cs' := by
  intro h
  obtain ⟨d, ds, rfl⟩ := List.exists_cons_of_ne_nil hne
  have hd := hds d List.mem_cons_self
  rw [(List.cons.inj h).1, hc] at hd
  cases hd

theorem isDigit_of_mem {n : ℕ} : ∀ c ∈ Nat.toDigits 10 n, c.isDigit = true :=
  fun _ hc => Nat.isDigit_of_mem_toDigits (by decide) le_rfl hc

theorem toDigits_append_ne (n : ℕ) {c : Char} (hc : c.isDigit = false) (cs cs' : List Char) :
    Nat.toDigits 10 n ++ cs ≠ c :: cs' :=
  digits_append_ne isDigit_of_mem (List.length_pos_iff.mp Nat.length_toDigits_pos) hc cs cs'

theorem intStr_append_inj {m n : ℤ} {cs cs' : List Char} (hcs : EndsNumber cs) (hcs' : EndsNumber cs')
    (h : intStr m ++ cs = intStr n ++ cs') : m = n ∧ cs = cs' :=
  signed_append_inj (fun n => toDigits_append_ne n (by decide)) (fun _ _ => toDigits_append_inj hcs hcs') h

end Python

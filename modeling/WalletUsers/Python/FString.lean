import WalletUsers.Python.Dates

/-!
# F-strings

The text of an f-string is that of its fields, one after the other.  Two f-strings whose shapes are apart,
which is decided from their literal texts and the kinds of their values, have the same text only if they
have the same values (`render_inj`).
-/

namespace Python

/-- A value between braces. -/
inductive Value
  | uuid (u : BitVec 128)
  | decimal (d : Decimal)
  | int (n : Option ℤ)
  | quoted (s : String)
  | day (n : ℤ)
deriving DecidableEq

/-- A literal text, or a value: `str` of it, and `repr` of a string. -/
inductive Field
  | lit (s : String)
  | val (v : Value)
deriving DecidableEq

inductive Kind
  | uuid
  | decimal
  | int
  | quoted
  | day
deriving DecidableEq

/-- A field without its value. -/
inductive Shape
  | lit (s : String)
  | val (k : Kind)
deriving DecidableEq

section Text

variable (printable : Char → Bool)

/-- The text of a value; an integer may be `None`. -/
def Value.text : Value → List Char
  | uuid u => (uuidStr u).toList
  | decimal d => d.str.toList
  | int n => n.elim "None".toList intStr
  | quoted s => repr printable s.toList
  | day n => Date.dayStr n

def Field.text : Field → List Char
  | lit s => s.toList
  | val v => v.text printable

/-- The text of an f-string. -/
def render (fields : List Field) : List Char := fields.flatMap (Field.text printable)

end Text

def Value.kind : Value → Kind
  | uuid _ => .uuid
  | decimal _ => .decimal
  | int _ => .int
  | quoted _ => .quoted
  | day _ => .day

def Field.shape : Field → Shape
  | lit s => .lit s
  | val v => .val v.kind

/-- The value of a kind ends before a text that goes on with the character. -/
def Kind.endsBefore : Kind → Char → Bool
  | uuid, _ | quoted, _ => true
  | decimal, c => !(c.isDigit || Decimal.marks.contains c)
  | int, c => !c.isDigit
  | day, _ => false

/-- The value of a kind ends before the fields. -/
def Kind.ends (k : Kind) : List Shape → Bool
  | [] => true
  | .lit s :: _ => s.toList.head?.any k.endsBefore
  | .val _ :: _ => false

/-- The texts of the shapes are told apart. -/
def apart : List Shape → List Shape → Bool
  | [], [] => true
  | .lit s :: xs, .lit t :: ys =>
    if s = t then apart xs ys
    else !(s.toList.isPrefixOf t.toList) && !(t.toList.isPrefixOf s.toList)
  | .val k :: xs, .val l :: ys => k = l && k.ends xs && l.ends ys && apart xs ys
  | _, _ => false

/-! ## Reading back -/

variable {printable : Char → Bool} {cs cs' : List Char}

theorem length_uuidStr (u : BitVec 128) : (uuidStr u).toList.length = 36 := by
  have hlength := length_hexText 32 u.toNat
  unfold uuidStr
  simp [groups, List.intercalate, hlength]

theorem uuidStr_append_inj {u u' : BitVec 128}
    (h : (uuidStr u).toList ++ cs = (uuidStr u').toList ++ cs') : u = u' ∧ cs = cs' := by
  obtain ⟨hstr, hcs⟩ := List.append_inj h ((length_uuidStr u).trans (length_uuidStr u').symm)
  have hread := congrArg uuidOf (String.toList_injective hstr)
  rw [uuidOf_uuidStr, uuidOf_uuidStr] at hread
  exact ⟨Option.some.inj hread, hcs⟩

theorem decimalStr_append_inj {d d' : Decimal} (hcs : ∀ c ∈ cs.head?, Kind.decimal.endsBefore c = true)
    (hcs' : ∀ c ∈ cs'.head?, Kind.decimal.endsBefore c = true)
    (h : d.str.toList ++ cs = d'.str.toList ++ cs') : d = d' ∧ cs = cs' := by
  have hmarks : ∀ d : Decimal, ∀ c ∈ d.str.toList,
      (c.isDigit || Decimal.marks.contains c) = true := by
    intro d c hc
    obtain ⟨a, b, e, hparts⟩ := Decimal.exists_parts d
    simpa using hparts.marks_of_mem c hc
  have hends : ∀ {cs : List Char}, (∀ c ∈ cs.head?, Kind.decimal.endsBefore c = true) →
      ∀ c ∈ cs.head?, (c.isDigit || Decimal.marks.contains c) = false :=
    fun hcs c hc => by simpa [Kind.endsBefore] using hcs c hc
  obtain ⟨hstr, hrest⟩ := append_inj_of_kind (hmarks d) (hmarks d') (hends hcs) (hends hcs') h
  have hread := congrArg Decimal.ofString (String.toList_injective hstr)
  rw [Decimal.ofString_str, Decimal.ofString_str] at hread
  exact ⟨Option.some.inj hread, hrest⟩

theorem intStr_append_ne_none (n : ℤ) (cs cs' : List Char) : intStr n ++ cs ≠ "None".toList ++ cs' := by
  intro h
  unfold intStr signed at h
  by_cases hn : n < 0
  · rw [if_pos hn] at h
    exact absurd (List.cons.inj h).1 (by decide)
  · rw [if_neg hn] at h
    exact toDigits_append_ne _ (by decide) _ _ h

theorem maybeInt_append_inj {m n : Option ℤ} (hcs : EndsNumber cs) (hcs' : EndsNumber cs')
    (h : m.elim "None".toList intStr ++ cs = n.elim "None".toList intStr ++ cs') :
    m = n ∧ cs = cs' := by
  cases m with
  | none =>
    cases n with
    | none => exact ⟨rfl, List.append_cancel_left h⟩
    | some n => exact absurd h.symm (intStr_append_ne_none n cs' cs)
  | some m =>
    cases n with
    | none => exact absurd h (intStr_append_ne_none m cs cs')
    | some n =>
      obtain ⟨rfl, hrest⟩ := intStr_append_inj hcs hcs' h
      exact ⟨rfl, hrest⟩

/-- The value of a kind ends before the text. -/
def Kind.EndsText (k : Kind) (cs : List Char) : Prop := ∀ c ∈ cs.head?, k.endsBefore c = true

theorem eq_nil_of_endsText (h : Kind.day.EndsText cs) : cs = [] := by
  cases cs with
  | nil => rfl
  | cons c cs => cases h c rfl

/-- A value is read back where its kind ends before what follows. -/
theorem Value.text_append_inj {v w : Value} (hkind : v.kind = w.kind) (hcs : v.kind.EndsText cs)
    (hcs' : w.kind.EndsText cs') (h : v.text printable ++ cs = w.text printable ++ cs') :
    v = w ∧ cs = cs' := by
  cases v <;> cases w <;> cases hkind
  case uuid.uuid.refl u u' =>
    obtain ⟨rfl, hrest⟩ := uuidStr_append_inj h
    exact ⟨rfl, hrest⟩
  case decimal.decimal.refl d d' =>
    obtain ⟨rfl, hrest⟩ := decimalStr_append_inj hcs hcs' h
    exact ⟨rfl, hrest⟩
  case int.int.refl m n =>
    have hends : ∀ {cs}, Kind.int.EndsText cs → EndsNumber cs := fun hcs c hc => by
      simpa [Kind.endsBefore] using hcs c hc
    obtain ⟨rfl, hrest⟩ := maybeInt_append_inj (hends hcs) (hends hcs') h
    exact ⟨rfl, hrest⟩
  case quoted.quoted.refl s s' =>
    obtain ⟨hs, hrest⟩ := repr_append_inj h
    exact ⟨by rw [String.toList_injective hs], hrest⟩
  case day.day.refl m n =>
    obtain rfl := eq_nil_of_endsText hcs
    obtain rfl := eq_nil_of_endsText hcs'
    rw [List.append_nil, List.append_nil] at h
    exact ⟨by rw [Date.dayStr_injective h], rfl⟩

theorem endsText_render {k : Kind} {xs : List Field} (h : k.ends (xs.map Field.shape) = true) :
    k.EndsText (render printable xs) := by
  cases xs with
  | nil => exact fun c hc => by cases hc
  | cons x xs =>
    cases x with
    | val v => cases h
    | lit s =>
      intro c hc
      change s.toList.head?.any k.endsBefore = true at h
      change c ∈ (s.toList ++ render printable xs).head? at hc
      cases hs : s.toList with
      | nil =>
        rw [hs] at h
        cases h
      | cons d ds =>
        rw [hs] at h hc
        cases hc
        exact h

/-- **Unique reading.**  F-strings whose shapes are apart have the same text only if they are the same. -/
theorem render_inj {xs ys : List Field} (h : apart (xs.map Field.shape) (ys.map Field.shape) = true)
    (htext : render printable xs = render printable ys) : xs = ys := by
  induction xs generalizing ys with
  | nil =>
    cases ys with
    | nil => rfl
    | cons y ys => cases h
  | cons x xs ih =>
    cases ys with
    | nil => cases x <;> cases h
    | cons y ys =>
      cases x with
      | lit s =>
        cases y with
        | val w => cases h
        | lit t =>
          change s.toList ++ render printable xs = t.toList ++ render printable ys at htext
          change (if s = t then apart (xs.map Field.shape) (ys.map Field.shape) else _) = true at h
          by_cases hst : s = t
          · subst hst
            rw [if_pos rfl] at h
            rw [ih h (List.append_cancel_left htext)]
          · -- neither text begins with the other one
            rw [if_neg hst, Bool.and_eq_true, Bool.not_eq_true', Bool.not_eq_true',
              ← Bool.not_eq_true, ← Bool.not_eq_true, List.isPrefixOf_iff_prefix,
              List.isPrefixOf_iff_prefix] at h
            have hs : s.toList <+: t.toList ++ render printable ys := ⟨_, htext⟩
            exact ((List.prefix_or_prefix_of_prefix hs (List.prefix_append _ _)).elim h.1 h.2).elim
      | val v =>
        cases y with
        | lit t => cases h
        | val w =>
          change v.text printable ++ render printable xs = w.text printable ++ render printable ys at htext
          simp only [List.map_cons, Field.shape, apart, Bool.and_eq_true, decide_eq_true_eq] at h
          obtain ⟨⟨⟨hkind, hx⟩, hy⟩, hrest⟩ := h
          obtain ⟨rfl, hsame⟩ :=
            Value.text_append_inj hkind (endsText_render hx) (endsText_render hy) htext
          rw [ih hrest hsame]

end Python

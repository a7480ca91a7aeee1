import Mathlib.Data.List.Basic

/-
  JSON texts as RFC 8259 defines them, over code points: `JSON-text = ws value ws` (§2), objects
  (§4), arrays (§5), numbers (§6) and strings (§7), where a `\uXXXX` escape stands for a
  character of the Basic Multilingual Plane other than a surrogate, and two of them, a high
  surrogate then a low one, for a character beyond it.

  The whitespace around the structural characters is written into `Members` and `Elements`, each
  member or element with the whitespace on both sides of it; `begin-object = ws %x7B ws` and its
  like give the same texts.

  Proved: a number ends in a digit (`Number.last_digit`); a value ends in a digit, a quotation
  mark, a closing bracket or brace, or the last letter of a literal (`Value.ends`); so a text
  whose last character is none of these and no whitespace is no JSON text
  (`not_jsonText_of_last`).
-/

namespace MariaDB.Lib.Rfc8259

/-- `ws = *( %x20 / %x09 / %x0A / %x0D )`, one character. -/
def IsWs (c : Nat) : Prop := c = 0x20 ∨ c = 0x09 ∨ c = 0x0A ∨ c = 0x0D

instance (c : Nat) : Decidable (IsWs c) := by unfold IsWs; infer_instance

/-- `ws`. -/
def Ws (l : List Nat) : Prop := ∀ c ∈ l, IsWs c

/-- `DIGIT = %x30-39`. -/
def IsDigit (c : Nat) : Prop := 0x30 ≤ c ∧ c ≤ 0x39

instance (c : Nat) : Decidable (IsDigit c) := by unfold IsDigit; infer_instance

/-- `1*DIGIT`. -/
def Digits1 (l : List Nat) : Prop := l ≠ [] ∧ ∀ c ∈ l, IsDigit c

/-- `int = zero / ( digit1-9 *DIGIT )`. -/
def IntPart (l : List Nat) : Prop :=
  l = [0x30] ∨ ∃ d ds, l = d :: ds ∧ 0x31 ≤ d ∧ d ≤ 0x39 ∧ ∀ c ∈ ds, IsDigit c

/-- `[ frac ]` with `frac = decimal-point 1*DIGIT`. -/
def FracPart (l : List Nat) : Prop := l = [] ∨ ∃ ds, l = 0x2E :: ds ∧ Digits1 ds

/-- `[ exp ]` with `exp = e [ minus / plus ] 1*DIGIT`. -/
def ExpPart (l : List Nat) : Prop :=
  l = [] ∨ ∃ e s ds, l = e :: (s ++ ds) ∧ (e = 0x65 ∨ e = 0x45) ∧
    (s = [] ∨ s = [0x2D] ∨ s = [0x2B]) ∧ Digits1 ds

/-- `number = [ minus ] int [ frac ] [ exp ]`. -/
def Number (l : List Nat) : Prop :=
  ∃ m i f e, l = m ++ i ++ f ++ e ∧ (m = [] ∨ m = [0x2D]) ∧ IntPart i ∧ FracPart f ∧ ExpPart e

/-- The value of a `HEXDIG`. -/
def hexValue (c : Nat) : Option Nat :=
  if 0x30 ≤ c ∧ c ≤ 0x39 then some (c - 0x30)
  else if 0x41 ≤ c ∧ c ≤ 0x46 then some (c - 0x37)
  else if 0x61 ≤ c ∧ c ≤ 0x66 then some (c - 0x57)
  else none

/-- The value of `4HEXDIG`. -/
def quadValue : List Nat → Option Nat
  | [a, b, c, d] => do
    let va ← hexValue a
    let vb ← hexValue b
    let vc ← hexValue c
    let vd ← hexValue d
    pure (((va * 16 + vb) * 16 + vc) * 16 + vd)
  | _ => none

/-- `unescaped = %x20-21 / %x23-5B / %x5D-10FFFF`. -/
def Unescaped (c : Nat) : Prop :=
  (0x20 ≤ c ∧ c ≤ 0x21) ∨ (0x23 ≤ c ∧ c ≤ 0x5B) ∨ (0x5D ≤ c ∧ c ≤ 0x10FFFF)

/-- The escapes of one character: `" \ / b f n r t`. -/
def ShortEscape (c : Nat) : Prop :=
  c = 0x22 ∨ c = 0x5C ∨ c = 0x2F ∨ c = 0x62 ∨ c = 0x66 ∨ c = 0x6E ∨ c = 0x72 ∨ c = 0x74

/-- `*char`, the characters between the quotation marks. -/
inductive StrChars : List Nat → Prop where
  | nil : StrChars []
  | plain {c rest} : Unescaped c → StrChars rest → StrChars (c :: rest)
  | escape {c rest} : ShortEscape c → StrChars rest → StrChars (0x5C :: c :: rest)
  /-- `\uXXXX` of a character of the Basic Multilingual Plane. -/
  | unicode {q v rest} : quadValue q = some v → ¬ (0xD800 ≤ v ∧ v ≤ 0xDFFF) → StrChars rest →
      StrChars (0x5C :: 0x75 :: (q ++ rest))
  /-- A high surrogate, then a low one. -/
  | pair {q q' v v' rest} : quadValue q = some v → quadValue q' = some v' →
      0xD800 ≤ v → v ≤ 0xDBFF → 0xDC00 ≤ v' → v' ≤ 0xDFFF → StrChars rest →
      StrChars (0x5C :: 0x75 :: (q ++ 0x5C :: 0x75 :: (q' ++ rest)))

/-- `string = quotation-mark *char quotation-mark`. -/
def JString (l : List Nat) : Prop := ∃ cs, l = 0x22 :: (cs ++ [0x22]) ∧ StrChars cs

mutual

/-- `value = false / null / true / object / array / number / string`. -/
inductive Value : List Nat → Prop where
  | litFalse : Value [0x66, 0x61, 0x6C, 0x73, 0x65]
  | litNull : Value [0x6E, 0x75, 0x6C, 0x6C]
  | litTrue : Value [0x74, 0x72, 0x75, 0x65]
  | number {l} : Number l → Value l
  | string {l} : JString l → Value l
  | emptyObject {w} : Ws w → Value (0x7B :: (w ++ [0x7D]))
  | object {ms} : Members ms → Value (0x7B :: (ms ++ [0x7D]))
  | emptyArray {w} : Ws w → Value (0x5B :: (w ++ [0x5D]))
  | array {es} : Elements es → Value (0x5B :: (es ++ [0x5D]))

/-- `member *( value-separator member )` with `member = string name-separator value`. -/
inductive Members : List Nat → Prop where
  | one {w₁ k w₂ w₃ v w₄} : Ws w₁ → JString k → Ws w₂ → Ws w₃ → Value v → Ws w₄ →
      Members (w₁ ++ k ++ w₂ ++ 0x3A :: (w₃ ++ v ++ w₄))
  | cons {w₁ k w₂ w₃ v w₄ rest} : Ws w₁ → JString k → Ws w₂ → Ws w₃ → Value v → Ws w₄ →
      Members rest → Members (w₁ ++ k ++ w₂ ++ 0x3A :: (w₃ ++ v ++ w₄ ++ 0x2C :: rest))

/-- `value *( value-separator value )`. -/
inductive Elements : List Nat → Prop where
  | one {w₁ v w₂} : Ws w₁ → Value v → Ws w₂ → Elements (w₁ ++ v ++ w₂)
  | cons {w₁ v w₂ rest} : Ws w₁ → Value v → Ws w₂ → Elements rest →
      Elements (w₁ ++ v ++ w₂ ++ 0x2C :: rest)

end

/-- `JSON-text = ws value ws`. -/
def JsonText (l : List Nat) : Prop := ∃ w₁ v w₂, l = w₁ ++ v ++ w₂ ∧ Ws w₁ ∧ Value v ∧ Ws w₂

/-! ## How a value ends -/

/-- The characters a value can end in: a digit, `"`, `]`, `}`, and the `e` and `l` of the
literals. -/
def ValueEnd (c : Nat) : Prop :=
  IsDigit c ∨ c = 0x22 ∨ c = 0x5D ∨ c = 0x7D ∨ c = 0x65 ∨ c = 0x6C

instance (c : Nat) : Decidable (ValueEnd c) := by unfold ValueEnd; infer_instance

theorem Digits1.last {l : List Nat} (h : Digits1 l) : ∃ p d, l = p ++ [d] ∧ IsDigit d := by
  obtain ⟨hne, hd⟩ := h
  obtain ⟨p, d, rfl⟩ := (List.eq_nil_or_concat' l).resolve_left hne
  exact ⟨p, d, rfl, hd d (by simp)⟩

theorem IntPart.last {l : List Nat} (h : IntPart l) : ∃ p d, l = p ++ [d] ∧ IsDigit d := by
  rcases h with rfl | ⟨d, ds, rfl, h1, h9, hds⟩
  · exact ⟨[], 0x30, rfl, by decide⟩
  · -- the last digit is `d` itself, or the last of the digits after it
    rcases List.eq_nil_or_concat' ds with rfl | ⟨p, e, rfl⟩
    · exact ⟨[], d, rfl, by unfold IsDigit; omega⟩
    · exact ⟨d :: p, e, rfl, hds e (by simp)⟩

/-- A number ends in a digit: of its exponent, else of its fraction, else of its integer. -/
theorem Number.last_digit {l : List Nat} (h : Number l) : ∃ p d, l = p ++ [d] ∧ IsDigit d := by
  obtain ⟨m, i, f, e, rfl, -, hi, hf, he⟩ := h
  rcases he with rfl | ⟨x, s, ds, rfl, -, -, hds⟩
  · rcases hf with rfl | ⟨ds, rfl, hds⟩
    · obtain ⟨p, d, rfl, hd⟩ := hi.last
      exact ⟨m ++ p, d, by simp, hd⟩
    · obtain ⟨p, d, rfl, hd⟩ := hds.last
      exact ⟨m ++ i ++ 0x2E :: p, d, by simp, hd⟩
  · obtain ⟨p, d, rfl, hd⟩ := hds.last
    exact ⟨m ++ i ++ f ++ x :: (s ++ p), d, by simp, hd⟩

/-- Every value ends in a `ValueEnd` character. -/
theorem Value.ends {v : List Nat} (h : Value v) : ∃ p c, v = p ++ [c] ∧ ValueEnd c := by
  cases h with
  | litFalse => exact ⟨[0x66, 0x61, 0x6C, 0x73], 0x65, rfl, by decide⟩
  | litNull => exact ⟨[0x6E, 0x75, 0x6C], 0x6C, rfl, by decide⟩
  | litTrue => exact ⟨[0x74, 0x72, 0x75], 0x65, rfl, by decide⟩
  | number hn =>
    obtain ⟨p, d, rfl, hd⟩ := hn.last_digit
    exact ⟨p, d, rfl, Or.inl hd⟩
  | string hs =>
    obtain ⟨cs, rfl, -⟩ := hs
    exact ⟨0x22 :: cs, 0x22, rfl, by decide⟩
  | @emptyObject w _ => exact ⟨0x7B :: w, 0x7D, rfl, by decide⟩
  | @object ms _ => exact ⟨0x7B :: ms, 0x7D, rfl, by decide⟩
  | @emptyArray w _ => exact ⟨0x5B :: w, 0x5D, rfl, by decide⟩
  | @array es _ => exact ⟨0x5B :: es, 0x5D, rfl, by decide⟩

/-- A JSON text is a value's last character, then whitespace. -/
theorem JsonText.ends {l : List Nat} (h : JsonText l) :
    ∃ p c w, l = p ++ c :: w ∧ ValueEnd c ∧ Ws w := by
  obtain ⟨w₁, v, w₂, rfl, -, hv, hw₂⟩ := h
  obtain ⟨p, c, rfl, hc⟩ := hv.ends
  exact ⟨w₁ ++ p, c, w₂, by simp, hc, hw₂⟩

/-- A text whose last character is no whitespace and cannot end a value is no JSON text. -/
theorem not_jsonText_of_last {l : List Nat} {c : Nat} (hw : ¬ IsWs c) (hv : ¬ ValueEnd c) :
    ¬ JsonText (l ++ [c]) := by
  intro h
  obtain ⟨p, c', w, heq, hc', hws⟩ := h.ends
  -- the whitespace after the value is empty, else it holds the last character
  rcases List.eq_nil_or_concat' w with rfl | ⟨w', x, rfl⟩
  · have : [c] = [c'] := List.append_inj_right' heq rfl
    exact hv (List.singleton_inj.mp this ▸ hc')
  · have heq' : l ++ [c] = (p ++ c' :: w') ++ [x] := by rw [heq]; simp
    have : [c] = [x] := List.append_inj_right' heq' rfl
    exact hw (List.singleton_inj.mp this ▸ hws x (by simp))

end MariaDB.Lib.Rfc8259

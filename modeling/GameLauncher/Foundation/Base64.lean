import GameLauncher.Foundation.Text

/-!
# Base64

The standard alphabet with padding. `encode` turns three bytes into four symbols and pads the last
group; `decode` is strict: the padding must be there, the bits that a padded group leaves over must
be zero, and nothing but symbols and padding may occur. `decode_encode` is the round trip.
-/

set_option autoImplicit false

namespace GameLauncher.Foundation.Base64

open List

/-! ### Symbols -/

/-- The symbol of a six-bit value. -/
def symbol (value : ℕ) : Char :=
  if value < 26 then Char.ofNat (65 + value)
  else if value < 52 then Char.ofNat (71 + value)
  else if value < 62 then Char.ofNat (value - 4)
  else if value = 62 then '+'
  else '/'

def symbolValue (c : Char) : Option ℕ :=
  if 65 ≤ c.toNat ∧ c.toNat ≤ 90 then some (c.toNat - 65)
  else if 97 ≤ c.toNat ∧ c.toNat ≤ 122 then some (c.toNat - 71)
  else if 48 ≤ c.toNat ∧ c.toNat ≤ 57 then some (c.toNat + 4)
  else if c = '+' then some 62
  else if c = '/' then some 63
  else none

theorem symbol_facts {value : ℕ} (h : value < 64) :
    symbolValue (symbol value) = some value ∧ symbol value ≠ '=' ∧
      33 ≤ (symbol value).toNat ∧ (symbol value).toNat ≤ 126 := by
  have hall : ∀ value : Fin 64, symbolValue (symbol value) = some value.val ∧
      symbol value ≠ '=' ∧ 33 ≤ (symbol value).toNat ∧ (symbol value).toNat ≤ 126 := by
    decide
  exact hall ⟨value, h⟩

/-! ### Groups -/

def encode : Bytes → Text
  | [] => []
  | [a] => [symbol (a.toNat / 4), symbol (a.toNat % 4 * 16), '=', '=']
  | [a, b] =>
    [symbol (a.toNat / 4), symbol (a.toNat % 4 * 16 + b.toNat / 16), symbol (b.toNat % 16 * 4), '=']
  | a :: b :: c :: rest =>
    symbol (a.toNat / 4) :: symbol (a.toNat % 4 * 16 + b.toNat / 16) ::
      symbol (b.toNat % 16 * 4 + c.toNat / 64) :: symbol (c.toNat % 64) :: encode rest

/-- The byte of a group of four symbols that ends in two paddings. -/
def decodeOne (w x : Char) : Option Bytes := do
  let first ← symbolValue w
  let second ← symbolValue x
  if second % 16 = 0 then some [UInt8.ofNat (first * 4 + second / 16)] else none

/-- The bytes of a group that ends in one padding. -/
def decodeTwo (w x y : Char) : Option Bytes := do
  let first ← symbolValue w
  let second ← symbolValue x
  let third ← symbolValue y
  if third % 4 = 0 then
    some [UInt8.ofNat (first * 4 + second / 16), UInt8.ofNat (second % 16 * 16 + third / 4)]
  else none

/-- The bytes of a group without padding. -/
def decodeThree (w x y z : Char) : Option Bytes := do
  let first ← symbolValue w
  let second ← symbolValue x
  let third ← symbolValue y
  let fourth ← symbolValue z
  some [UInt8.ofNat (first * 4 + second / 16), UInt8.ofNat (second % 16 * 16 + third / 4),
    UInt8.ofNat (third % 4 * 64 + fourth)]

def decode : Text → Option Bytes
  | [] => some []
  | w :: x :: y :: z :: rest =>
    if rest = [] ∧ z = '=' then if y = '=' then decodeOne w x else decodeTwo w x y
    else do
      let group ← decodeThree w x y z
      let others ← decode rest
      some (group ++ others)
  | _ => none

theorem decodeOne_symbols (a : UInt8) :
    decodeOne (symbol (a.toNat / 4)) (symbol (a.toNat % 4 * 16)) = some [a] := by
  have hbyte := a.toNat_lt
  have hvalue : a.toNat / 4 * 4 + a.toNat % 4 * 16 / 16 = a.toNat := by omega
  rw [decodeOne, (symbol_facts (show a.toNat / 4 < 64 by omega)).1,
    (symbol_facts (show a.toNat % 4 * 16 < 64 by omega)).1]
  simp only [Option.bind_eq_bind, Option.bind_some, Nat.mul_mod_left, if_true, hvalue,
    UInt8.ofNat_toNat]

theorem decodeTwo_symbols (a b : UInt8) :
    decodeTwo (symbol (a.toNat / 4)) (symbol (a.toNat % 4 * 16 + b.toNat / 16))
      (symbol (b.toNat % 16 * 4)) = some [a, b] := by
  have hfirst := a.toNat_lt
  have hsecond := b.toNat_lt
  have hone : a.toNat / 4 * 4 + (a.toNat % 4 * 16 + b.toNat / 16) / 16 = a.toNat := by omega
  have htwo : (a.toNat % 4 * 16 + b.toNat / 16) % 16 * 16 + b.toNat % 16 * 4 / 4 = b.toNat := by
    omega
  rw [decodeTwo, (symbol_facts (show a.toNat / 4 < 64 by omega)).1,
    (symbol_facts (show a.toNat % 4 * 16 + b.toNat / 16 < 64 by omega)).1,
    (symbol_facts (show b.toNat % 16 * 4 < 64 by omega)).1]
  simp only [Option.bind_eq_bind, Option.bind_some, Nat.mul_mod_left, if_true, hone, htwo,
    UInt8.ofNat_toNat]

theorem decodeThree_symbols (a b c : UInt8) :
    decodeThree (symbol (a.toNat / 4)) (symbol (a.toNat % 4 * 16 + b.toNat / 16))
      (symbol (b.toNat % 16 * 4 + c.toNat / 64)) (symbol (c.toNat % 64)) = some [a, b, c] := by
  have hfirst := a.toNat_lt
  have hsecond := b.toNat_lt
  have hthird := c.toNat_lt
  have hone : a.toNat / 4 * 4 + (a.toNat % 4 * 16 + b.toNat / 16) / 16 = a.toNat := by omega
  have htwo : (a.toNat % 4 * 16 + b.toNat / 16) % 16 * 16 +
      (b.toNat % 16 * 4 + c.toNat / 64) / 4 = b.toNat := by omega
  have hthree : (b.toNat % 16 * 4 + c.toNat / 64) % 4 * 64 + c.toNat % 64 = c.toNat := by omega
  rw [decodeThree, (symbol_facts (show a.toNat / 4 < 64 by omega)).1,
    (symbol_facts (show a.toNat % 4 * 16 + b.toNat / 16 < 64 by omega)).1,
    (symbol_facts (show b.toNat % 16 * 4 + c.toNat / 64 < 64 by omega)).1,
    (symbol_facts (show c.toNat % 64 < 64 by omega)).1]
  simp only [Option.bind_eq_bind, Option.bind_some, hone, htwo, hthree, UInt8.ofNat_toNat]

theorem decode_encode (bytes : Bytes) : decode (encode bytes) = some bytes := by
  induction bytes using encode.induct with
  | case1 => rfl
  | case2 a =>
    rw [encode, decode, if_pos ⟨rfl, rfl⟩, if_pos rfl, decodeOne_symbols]
  | case3 a b =>
    have hsymbol := (symbol_facts (show b.toNat % 16 * 4 < 64 by omega)).2.1
    rw [encode, decode, if_pos ⟨rfl, rfl⟩, if_neg hsymbol, decodeTwo_symbols]
  | case4 a b c rest ih =>
    have hsymbol := (symbol_facts (show c.toNat % 64 < 64 by omega)).2.1
    rw [encode, decode, if_neg fun h ↦ hsymbol h.2, decodeThree_symbols, ih]
    rfl

theorem visible_of_mem_encode {bytes : Bytes} {c : Char} (h : c ∈ encode bytes) :
    33 ≤ c.toNat ∧ c.toNat ≤ 126 := by
  have hsymbol {value : ℕ} (hvalue : value < 64) :
      33 ≤ (symbol value).toNat ∧ (symbol value).toNat ≤ 126 := (symbol_facts hvalue).2.2
  induction bytes using encode.induct with
  | case1 => exact absurd h not_mem_nil
  | case2 a =>
    have hone := a.toNat_lt
    simp only [encode, mem_cons, not_mem_nil, or_false] at h
    rcases h with rfl | rfl | rfl | rfl
    · exact hsymbol (by omega)
    · exact hsymbol (by omega)
    · decide
    · decide
  | case3 a b =>
    have hone := a.toNat_lt
    have htwo := b.toNat_lt
    simp only [encode, mem_cons, not_mem_nil, or_false] at h
    rcases h with rfl | rfl | rfl | rfl
    · exact hsymbol (by omega)
    · exact hsymbol (by omega)
    · exact hsymbol (by omega)
    · decide
  | case4 a b d rest ih =>
    have hone := a.toNat_lt
    have htwo := b.toNat_lt
    have hthree := d.toNat_lt
    simp only [encode, mem_cons] at h
    rcases h with rfl | rfl | rfl | rfl | h
    · exact hsymbol (by omega)
    · exact hsymbol (by omega)
    · exact hsymbol (by omega)
    · exact hsymbol (by omega)
    · exact ih h

theorem exists_encode_eq (bytes : Bytes) : ∃ symbols padding,
    encode bytes = symbols ++ List.replicate padding '=' ∧
      (∀ c ∈ symbols, ∃ value < 64, c = symbol value) ∧
      padding ≤ 2 ∧ (symbols.length + padding) % 4 = 0 := by
  have hsymbol {value : ℕ} (hvalue : value < 64) : ∃ other < 64, symbol value = symbol other :=
    ⟨value, hvalue, rfl⟩
  induction bytes using encode.induct with
  | case1 => exact ⟨[], 0, rfl, fun _ h ↦ absurd h not_mem_nil, by omega, rfl⟩
  | case2 a =>
    have hone := a.toNat_lt
    refine ⟨[symbol (a.toNat / 4), symbol (a.toNat % 4 * 16)], 2, rfl, ?_, le_rfl, by simp⟩
    simp only [forall_mem_cons]
    exact ⟨hsymbol (by omega), hsymbol (by omega), fun _ h ↦ absurd h not_mem_nil⟩
  | case3 a b =>
    have hone := a.toNat_lt
    have htwo := b.toNat_lt
    refine ⟨[symbol (a.toNat / 4), symbol (a.toNat % 4 * 16 + b.toNat / 16),
      symbol (b.toNat % 16 * 4)], 1, rfl, ?_, by omega, by simp⟩
    simp only [forall_mem_cons]
    exact ⟨hsymbol (by omega), hsymbol (by omega), hsymbol (by omega),
      fun _ h ↦ absurd h not_mem_nil⟩
  | case4 a b d rest ih =>
    have hone := a.toNat_lt
    have htwo := b.toNat_lt
    have hthree := d.toNat_lt
    obtain ⟨symbols, padding, hencode, hsymbols, hpadding, hlength⟩ := ih
    refine ⟨symbol (a.toNat / 4) :: symbol (a.toNat % 4 * 16 + b.toNat / 16) ::
      symbol (b.toNat % 16 * 4 + d.toNat / 64) :: symbol (d.toNat % 64) :: symbols, padding,
      ?_, ?_, hpadding, ?_⟩
    · rw [encode, hencode]
      rfl
    · simp only [forall_mem_cons]
      exact ⟨hsymbol (by omega), hsymbol (by omega), hsymbol (by omega), hsymbol (by omega),
        hsymbols⟩
    · simp only [length_cons]
      omega

end GameLauncher.Foundation.Base64

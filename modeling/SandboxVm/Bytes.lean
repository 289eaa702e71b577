/-
SandboxVm.Bytes — byte strings and the little-endian words inside them.

Images and code segments are plain byte strings. A word is written as four bytes,
least significant first; `word?` reads one off the front and returns what is left,
so that a reader is a chain of such steps.
-/

namespace SandboxVm

/-- A byte string, first byte first. -/
abbrev Bytes := List UInt8

namespace Bytes

/-- The word whose bytes are `a`, `b`, `c`, `d`, least significant first. -/
@[inline]
def toWord (a b c d : UInt8) : UInt32 :=
  a.toUInt32 ||| (b.toUInt32 <<< 8) ||| (c.toUInt32 <<< 16) ||| (d.toUInt32 <<< 24)

/-- The four bytes of a word, least significant first. -/
def ofWord (w : UInt32) : Bytes :=
  [w.toUInt8, (w >>> 8).toUInt8, (w >>> 16).toUInt8, (w >>> 24).toUInt8]

/-- A word is the number that has its bytes as digits. -/
theorem toNat_toWord (a b c d : UInt8) :
    (toWord a b c d).toNat =
      a.toNat + 0x100 * b.toNat + 0x10000 * c.toNat + 0x1000000 * d.toNat := by
  have ha := a.toNat_lt
  have hb := b.toNat_lt
  have hc := c.toNat_lt
  have hshift (x : UInt8) {k : Nat} (hk : k ≤ 24) : x.toNat <<< k % 2 ^ 32 = x.toNat <<< k := by
    have hx : x.toNat ≤ 255 := Nat.le_of_lt_succ x.toNat_lt
    apply Nat.mod_eq_of_lt
    rw [Nat.shiftLeft_eq]
    calc x.toNat * 2 ^ k ≤ 255 * 2 ^ 24 :=
          Nat.mul_le_mul hx (Nat.pow_le_pow_right (by omega) hk)
      _ < 2 ^ 32 := by decide
  have hor {x y k : Nat} (hx : x < 2 ^ k) : x ||| y <<< k = x + 2 ^ k * y := by
    rw [Nat.or_comm, ← Nat.shiftLeft_add_eq_or_of_lt hx, Nat.shiftLeft_eq, Nat.mul_comm,
      Nat.add_comm]
  have hword : (toWord a b c d).toNat =
      a.toNat ||| b.toNat <<< 8 % 2 ^ 32 ||| c.toNat <<< 16 % 2 ^ 32 |||
        d.toNat <<< 24 % 2 ^ 32 := by
    simp only [toWord, UInt32.toNat_or, UInt32.toNat_shiftLeft, UInt8.toNat_toUInt32]
    rfl
  rw [hshift b (by omega), hshift c (by omega), hshift d (by omega),
    hor (x := a.toNat) (by omega), hor (x := a.toNat + _) (by omega), hor (by omega)] at hword
  omega

/-- The bytes of a word, as parts of the number. -/
theorem toNat_toUInt8_shiftRight (w : UInt32) {k : UInt32} (hk : k.toNat < 32) :
    (w >>> k).toUInt8.toNat = w.toNat >>> k.toNat % 0x100 := by
  rw [UInt32.toNat_toUInt8, UInt32.toNat_shiftRight, Nat.mod_eq_of_lt hk]

/-- Putting the bytes of a word together gives the word back. -/
@[simp]
theorem toWord_ofWord (w : UInt32) :
    toWord w.toUInt8 (w >>> 8).toUInt8 (w >>> 16).toUInt8 (w >>> 24).toUInt8 = w := by
  have hw := w.toNat_lt
  apply UInt32.toNat_inj.1
  rw [toNat_toWord, UInt32.toNat_toUInt8, toNat_toUInt8_shiftRight w (by decide),
    toNat_toUInt8_shiftRight w (by decide), toNat_toUInt8_shiftRight w (by decide)]
  simp only [UInt32.reduceToNat]
  omega

/-- Taking a word apart gives the bytes back that it was put together from. -/
@[simp]
theorem ofWord_toWord (a b c d : UInt8) : ofWord (toWord a b c d) = [a, b, c, d] := by
  have ha := a.toNat_lt
  have hb := b.toNat_lt
  have hc := c.toNat_lt
  have hd := d.toNat_lt
  simp only [ofWord, List.cons.injEq, and_true, ← UInt8.toNat_inj, UInt32.toNat_toUInt8,
    toNat_toUInt8_shiftRight (toWord a b c d) (k := 8) (by decide),
    toNat_toUInt8_shiftRight (toWord a b c d) (k := 16) (by decide),
    toNat_toUInt8_shiftRight (toWord a b c d) (k := 24) (by decide), toNat_toWord,
    UInt32.reduceToNat]
  omega

@[simp]
theorem length_ofWord (w : UInt32) : (ofWord w).length = 4 := rfl

/-- Reads one word off the front; `none` when fewer than four bytes are left. -/
def word? : Bytes → Option (UInt32 × Bytes)
  | a :: b :: c :: d :: rest => some (toWord a b c d, rest)
  | _ => none

/-- A word that was written is read back, whatever follows it. -/
@[simp]
theorem word?_ofWord_append (w : UInt32) (rest : Bytes) :
    word? (ofWord w ++ rest) = some (w, rest) := by
  simp [ofWord, word?]

/-- What is read as a word is the word as it is written. -/
theorem eq_ofWord_append_of_word? {bytes rest : Bytes} {w : UInt32}
    (h : word? bytes = some (w, rest)) : bytes = ofWord w ++ rest := by
  match bytes, h with
  | a :: b :: c :: d :: tail, h =>
    cases h
    rw [ofWord_toWord]
    rfl

/-- Reads `n` words off the front, behind `acc`, which is reversed. -/
def wordsInto : Nat → Bytes → (acc : List UInt32) → Option (List UInt32 × Bytes)
  | 0, bytes, acc => some (acc.reverse, bytes)
  | n + 1, bytes, acc =>
    match word? bytes with
    | none => none
    | some (w, rest) => wordsInto n rest (w :: acc)

/-- Reads `n` words off the front, in order. -/
def words? (n : Nat) (bytes : Bytes) : Option (List UInt32 × Bytes) := wordsInto n bytes []

theorem wordsInto_eq (n : Nat) (bytes : Bytes) (acc : List UInt32) :
    wordsInto n bytes acc = (words? n bytes).map fun r => (acc.reverse ++ r.1, r.2) := by
  induction n generalizing bytes acc with
  | zero => simp [words?, wordsInto]
  | succ n ih =>
    simp only [words?, wordsInto]
    cases word? bytes with
    | none => rfl
    | some r => simp [ih r.2 (r.1 :: acc), ih r.2 [r.1], Function.comp_def]

@[simp]
theorem words?_zero (bytes : Bytes) : words? 0 bytes = some ([], bytes) := rfl

theorem words?_succ (n : Nat) (bytes : Bytes) :
    words? (n + 1) bytes = (word? bytes).bind fun r =>
      (words? n r.2).map fun s => (r.1 :: s.1, s.2) := by
  simp only [words?, wordsInto]
  cases word? bytes with
  | none => rfl
  | some r => simp [wordsInto_eq n r.2 [r.1], words?]

/-- Words that were written are read back, whatever follows them. -/
theorem words?_flatMap_ofWord (ws : List UInt32) (rest : Bytes) :
    words? ws.length (ws.flatMap ofWord ++ rest) = some (ws, rest) := by
  induction ws with
  | nil => rfl
  | cons w ws ih =>
    rw [List.length_cons, words?_succ, List.flatMap_cons, List.append_assoc, word?_ofWord_append]
    simp [ih]

/-- The `len` bytes from `start` on; `none` when they do not all exist. -/
def slice? (bytes : Bytes) (start len : Nat) : Option Bytes :=
  if start + len ≤ bytes.length then some ((bytes.drop start).take len) else none

end Bytes

end SandboxVm

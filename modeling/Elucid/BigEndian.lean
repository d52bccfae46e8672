import Mathlib.Data.List.Basic
import Mathlib.Data.List.Flatten
import Mathlib.Tactic

/-!
# Big-endian fields of a byte record

A fixed record is a concatenation of fields, each a number written most significant
byte first or a string of bytes taken as it is. `encode w n` writes the `w` low bytes
of `n`, `decode` reads them back (`decode_encode`), and `encodeInt` / `decodeInt` are
the two's complement versions (`decodeInt_encodeInt`). Both are onto the byte strings of
their width (`encode_decode`, `encodeInt_decodeInt`).

A reader takes a field by its offset : `slice bs off n` is the `n` bytes at `off`, or
nothing if the record ends before. A field of a concatenation is read back at the sum
of the lengths before it (`slice_flatten`), and a record cut behind a field still gives
that field (`slice_take`).
-/

namespace BigEndian

open List

/-- A string of bytes. -/
abbrev Bytes := List UInt8

instance : LawfulBEq Bytes := inferInstanceAs (LawfulBEq (List UInt8))

/-! ## Numbers -/

/-- The `w` low bytes of `n`, most significant first. -/
def encode : Nat → Nat → Bytes
  | 0, _ => []
  | w + 1, n => encode w (n / 256) ++ [UInt8.ofNat (n % 256)]

/-- The number with the given bytes, most significant first. -/
def decode (bs : Bytes) : Nat := bs.foldl (fun n b => n * 256 + b.toNat) 0

@[simp] theorem length_encode (w n : Nat) : (encode w n).length = w := by
  induction w generalizing n with
  | zero => rfl
  | succ w ih => simp [encode, ih]

theorem decode_append_singleton (bs : Bytes) (b : UInt8) :
    decode (bs ++ [b]) = decode bs * 256 + b.toNat := by
  simp [decode, foldl_append]

theorem decode_encode {w n : Nat} (h : n < 256 ^ w) : decode (encode w n) = n := by
  induction w generalizing n with
  | zero =>
    have : n = 0 := by simpa using h
    subst this
    rfl
  | succ w ih =>
    have hdiv : n / 256 < 256 ^ w := by
      rw [pow_succ] at h
      exact Nat.div_lt_of_lt_mul (by rwa [Nat.mul_comm] at h)
    rw [encode, decode_append_singleton, ih hdiv, UInt8.toNat_ofNat']
    omega

theorem decode_lt (bs : Bytes) : decode bs < 256 ^ bs.length := by
  induction bs using List.reverseRecOn with
  | nil => decide
  | append_singleton bs b ih =>
    have hb := b.toNat_lt
    rw [decode_append_singleton, length_append, length_singleton, pow_succ]
    omega

/-- Bytes that are read as a number are the ones it is written with. -/
theorem encode_decode (bs : Bytes) : encode bs.length (decode bs) = bs := by
  induction bs using List.reverseRecOn with
  | nil => rfl
  | append_singleton bs b ih =>
    have hb := b.toNat_lt
    have hdiv : (decode bs * 256 + b.toNat) / 256 = decode bs := by omega
    have hmod : (decode bs * 256 + b.toNat) % 256 = b.toNat := by omega
    rw [decode_append_singleton, length_append, length_singleton, encode, hdiv, hmod, ih,
      UInt8.ofNat_toNat]

/-- The `w` bytes of the two's complement of `i`. -/
def encodeInt (w : Nat) (i : Int) : Bytes := encode w (i % (256 ^ w : Nat)).toNat

/-- The number whose two's complement has the given bytes. -/
def decodeInt (bs : Bytes) : Int :=
  if 2 * decode bs < 256 ^ bs.length then decode bs else decode bs - (256 ^ bs.length : Nat)

@[simp] theorem length_encodeInt (w : Nat) (i : Int) : (encodeInt w i).length = w :=
  length_encode w _

theorem decodeInt_encodeInt {w : Nat} {i : Int}
    (hlo : -(256 ^ w : Nat) ≤ 2 * i) (hhi : 2 * i < (256 ^ w : Nat)) :
    decodeInt (encodeInt w i) = i := by
  have hpos : 0 < 256 ^ w := Nat.pow_pos (by decide)
  have hlt : (i % (256 ^ w : Nat)).toNat < 256 ^ w := by
    have := Int.emod_lt_of_pos i (b := (256 ^ w : Nat)) (by exact_mod_cast hpos)
    have := Int.emod_nonneg i (b := (256 ^ w : Nat)) (by exact_mod_cast hpos.ne')
    omega
  unfold decodeInt
  rw [length_encodeInt, encodeInt, decode_encode hlt]
  generalize 256 ^ w = m at *
  rcases lt_or_ge i 0 with hneg | hnonneg
  · have : i % (m : Int) = i + m := by
      rw [← Int.add_emod_right, Int.emod_eq_of_lt (by omega) (by omega)]
    rw [this]
    split <;> omega
  · have : i % (m : Int) = i := Int.emod_eq_of_lt hnonneg (by omega)
    rw [this]
    split <;> omega

theorem encodeInt_decodeInt (bs : Bytes) : encodeInt bs.length (decodeInt bs) = bs := by
  have hlt := decode_lt bs
  have hmod : (decodeInt bs % (256 ^ bs.length : Nat)).toNat = decode bs := by
    unfold decodeInt
    generalize 256 ^ bs.length = m at *
    split
    · rw [Int.emod_eq_of_lt (by omega) (by omega)]
      omega
    · rw [← Int.add_emod_right, Int.sub_add_cancel, Int.emod_eq_of_lt (by omega) (by omega)]
      omega
  rw [encodeInt, hmod, encode_decode]

/-! ## Fields -/

/-- The `n` bytes at offset `off`, if the record has them. -/
def slice (bs : Bytes) (off n : Nat) : Option Bytes :=
  if off + n ≤ bs.length then some ((bs.drop off).take n) else none

theorem length_of_slice {bs f : Bytes} {off n : Nat} (h : slice bs off n = some f) :
    f.length = n := by
  unfold slice at h
  split at h
  · cases h
    simp only [length_take, length_drop]
    omega
  · cases h

/-- A record from the offset of a field on. -/
theorem drop_of_slice {bs f : Bytes} {off n : Nat} (h : slice bs off n = some f) :
    bs.drop off = f ++ bs.drop (off + n) := by
  unfold slice at h
  split at h
  · cases h
    rw [← drop_drop, take_append_drop]
  · cases h

theorem add_le_of_slice {bs f : Bytes} {off n : Nat} (h : slice bs off n = some f) :
    off + n ≤ bs.length := by
  unfold slice at h
  split at h
  · assumption
  · cases h

/-- Where a field stands, there is one of any length before it. -/
theorem exists_slice_of_slice {bs f : Bytes} {off a b : Nat} (h : slice bs (off + a) b = some f) :
    ∃ g, slice bs off a = some g := by
  have := add_le_of_slice h
  exact ⟨_, if_pos (by omega)⟩

theorem slice_all (bs : Bytes) : slice bs 0 bs.length = some bs := by
  simp [slice]

/-- A field of a concatenation, at the length of what precedes it. -/
theorem slice_field (pre f post : Bytes) :
    slice (pre ++ (f ++ post)) pre.length f.length = some f := by
  unfold slice
  rw [if_pos (by simp)]
  simp

/-- The `i`-th of several fields of widths `ws` written one after another. -/
theorem slice_flatten {fs : List Bytes} {ws : List Nat} (hws : fs.map List.length = ws)
    {i w : Nat} {f : Bytes} (hf : fs[i]? = some f) (hw : ws[i]? = some w) :
    slice fs.flatten (ws.take i).sum w = some f := by
  obtain ⟨hi, rfl⟩ := List.getElem?_eq_some_iff.mp hf
  have hsplit : fs.flatten = (fs.take i).flatten ++ (fs[i] ++ (fs.drop (i + 1)).flatten) := by
    rw [← flatten_cons, ← flatten_append, getElem_cons_drop, take_append_drop]
  obtain rfl : fs[i].length = w := by
    rw [← hws, getElem?_map, getElem?_eq_getElem hi] at hw
    exact Option.some.inj hw
  rw [← hws, ← map_take, ← length_flatten, hsplit]
  exact slice_field _ _ _

/-- A field read in two parts. -/
theorem slice_split {bs f : Bytes} {off a b : Nat} (h : slice bs off (a + b) = some f) :
    slice bs off a = some (f.take a) ∧ slice bs (off + a) b = some (f.drop a) := by
  unfold slice at h ⊢
  split at h
  · cases h
    rw [if_pos (by omega), if_pos (by omega), take_take, Nat.min_eq_left (by omega),
      drop_take, drop_drop]
    simp
  · cases h

/-- Two fields that follow each other are one. -/
theorem slice_add {bs f g : Bytes} {off a b : Nat} (hf : slice bs off a = some f)
    (hg : slice bs (off + a) b = some g) : slice bs off (a + b) = some (f ++ g) := by
  have hlength : off + (a + b) ≤ bs.length := by
    have := add_le_of_slice hg
    omega
  have hdrop : bs.drop off = f ++ g ++ bs.drop (off + a + b) := by
    rw [drop_of_slice hf, drop_of_slice hg, append_assoc]
  have hfg : (f ++ g).length = a + b := by
    rw [length_append, length_of_slice hf, length_of_slice hg]
  rw [slice, if_pos hlength, hdrop, ← hfg, take_left]

/-- A cut behind a field does not change it. -/
theorem slice_take (bs : Bytes) {off n k : Nat} (h : off + n ≤ k) :
    slice (bs.take k) off n = slice bs off n := by
  unfold slice
  by_cases hb : off + n ≤ bs.length
  · rw [if_pos hb, if_pos (by simp; omega), drop_take, take_take,
      Nat.min_eq_left (by omega)]
  · rw [if_neg hb, if_neg (by simp; omega)]

end BigEndian

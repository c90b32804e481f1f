import MaskPool.Foundations.Numerals
import MaskPool.Model.Types

/-!
# IPv4 addresses as text

`ip4_to_str` writes a dotted quad. Reading one back gives the address, and nothing else is
a dotted quad: no field above 255, no leading zero, no blank.
-/

namespace MaskPool

open Numerals

def readIp4 (text : List Char) : Option Word :=
  match readRow '.' text with
  | some [a, b, c, d] =>
    if a < 256 ∧ b < 256 ∧ c < 256 ∧ d < 256 then
      some (BitVec.ofNat 32 (a * 2 ^ 24 + b * 2 ^ 16 + c * 2 ^ 8 + d))
    else none
  | _ => none

def ip4Bytes (ip : Word) : List ℕ :=
  [ip.toNat / 2 ^ 24, ip.toNat / 2 ^ 16 % 256, ip.toNat / 2 ^ 8 % 256, ip.toNat % 256]

theorem toNat_and_ff (w : Word) : (w &&& 0xff).toNat = w.toNat % 256 := by
  rw [BitVec.toNat_and]
  exact Nat.and_two_pow_sub_one_eq_mod w.toNat 8

theorem ip4ToStr_eq_row (ip : Word) : ip4ToStr ip = row '.' (ip4Bytes ip) := by
  simp only [ip4ToStr, toNat_and_ff, BitVec.toNat_ushiftRight, Nat.shiftRight_eq_div_pow, row,
    ip4Bytes, List.map_cons, List.map_nil, List.intercalate_cons_cons, List.append_assoc,
    List.intercalate_singleton]

/-- An address is its bytes, and any four bytes are an address. -/
theorem ip4Bytes_eq_iff {ip : Word} {a b c d : ℕ} :
    ip4Bytes ip = [a, b, c, d] ↔ (a < 256 ∧ b < 256 ∧ c < 256 ∧ d < 256) ∧
      ip = BitVec.ofNat 32 (a * 2 ^ 24 + b * 2 ^ 16 + c * 2 ^ 8 + d) := by
  have hip := ip.isLt
  rw [BitVec.toNat_eq, BitVec.toNat_ofNat]
  simp only [ip4Bytes, List.cons.injEq, and_true]
  constructor
  · rintro ⟨rfl, rfl, rfl, rfl⟩
    omega
  · rintro ⟨⟨ha, hb, hc, hd⟩, hnat⟩
    omega

theorem readIp4_eq_some {text : List Char} {ip : Word} :
    readIp4 text = some ip ↔ readRow '.' text = some (ip4Bytes ip) := by
  unfold readIp4
  constructor
  · intro h
    split at h
    · rename_i a b c d hrow
      split_ifs at h with hbytes
      rw [hrow, ip4Bytes_eq_iff.mpr ⟨hbytes, (Option.some.inj h).symm⟩]
    · cases h
  · intro h
    obtain ⟨hbytes, hip⟩ := ip4Bytes_eq_iff.mp (rfl : ip4Bytes ip = _)
    rw [h, ip4Bytes]
    dsimp only
    rw [if_pos hbytes, ← hip]

theorem length_toDigits_byte {n : ℕ} (hn : n < 256) :
    1 ≤ (Nat.toDigits 10 n).length ∧ (Nat.toDigits 10 n).length ≤ 3 :=
  ⟨Nat.length_toDigits_pos, (Nat.length_toDigits_le_iff (by omega) (by omega)).mpr (by omega)⟩

/-- A text is read as an address exactly when it is the one written for it, which with its
zero byte fits a buffer of 16. -/
theorem ip4ToStr_roundTrip (text : List Char) (ip : Word) :
    (readIp4 text = some ip ↔ text = ip4ToStr ip) ∧
      7 ≤ (ip4ToStr ip).length ∧ (ip4ToStr ip).length + 1 ≤ 16 := by
  obtain ⟨⟨ha, hb, hc, hd⟩, -⟩ := ip4Bytes_eq_iff.mp (rfl : ip4Bytes ip = _)
  constructor
  · rw [readIp4_eq_some, ip4ToStr_eq_row]
    exact readRow_eq_some rfl (List.cons_ne_nil _ _)
  · have h1 := length_toDigits_byte ha
    have h2 := length_toDigits_byte hb
    have h3 := length_toDigits_byte hc
    have h4 := length_toDigits_byte hd
    simp only [ip4ToStr, toNat_and_ff, BitVec.toNat_ushiftRight, Nat.shiftRight_eq_div_pow,
      List.length_append, List.length_singleton]
    omega

end MaskPool

import AttestedCompute.Lib.ByteString
import AttestedCompute.Lib.Fallible

/-!
# Variable-length numbers

Seven bits to a byte, lowest first, with the high bit on every byte but the last. The
writer uses as few bytes as it can; the reader has a limit on the bytes of one number and
refuses a last byte that adds nothing, so what it accepts is what the writer writes.
-/

namespace Varint

/-! ## Writing -/

/-- The loop of the writer, for at most `fuel + 1` bytes. -/
def encodeFrom : Nat → Nat → Bytes
  | 0, value => [UInt8.ofNat value]
  | fuel + 1, value =>
      if 0x80 ≤ value then
        UInt8.ofNat ((value &&& 0x7F) ||| 0x80) :: encodeFrom fuel (value >>> 7)
      else [UInt8.ofNat value]

def encode (value : Nat) : Bytes := encodeFrom value value

theorem toNat_byte {n : Nat} (h : n < 256) : (UInt8.ofNat n).toNat = n := UInt8.toNat_ofNat_of_lt' h

theorem low_bits (value : Nat) : (value &&& 0x7F) ||| 0x80 = value % 128 + 128 := by
  have hlow : value &&& 0x7F = value % 128 := Nat.and_two_pow_sub_one_eq_mod value 7
  have hor := Nat.two_pow_add_eq_or_of_lt (show value % 128 < 2 ^ 7 by omega) 1
  rw [hlow, Nat.or_comm]
  exact hor.symm.trans (Nat.add_comm _ _)

theorem shift_seven (value : Nat) : value >>> 7 = value / 128 := Nat.shiftRight_eq_div_pow value 7

/-- Fuel past the value changes nothing. -/
theorem encodeFrom_eq {fuel value : Nat} (h : value ≤ fuel) :
    encodeFrom fuel value = encode value := by
  unfold encode
  induction value using Nat.strong_induction_on generalizing fuel with
  | h value ih =>
      have hshort : ∀ fuel, value < 0x80 → encodeFrom fuel value = [UInt8.ofNat value] := by
        intro fuel hlt
        cases fuel with
        | zero => rfl
        | succ fuel => exact if_neg (by omega)
      by_cases hlt : value < 0x80
      · rw [hshort fuel hlt, hshort value hlt]
      obtain ⟨fuel, rfl⟩ := Nat.exists_eq_succ_of_ne_zero (show fuel ≠ 0 by omega)
      obtain ⟨pred, hpred⟩ := Nat.exists_eq_succ_of_ne_zero (show value ≠ 0 by omega)
      have hle : value >>> 7 ≤ pred := by
        rw [shift_seven]
        omega
      have hsmall : value >>> 7 < value := by
        rw [shift_seven]
        omega
      conv_rhs => rw [hpred]
      rw [encodeFrom, encodeFrom, ← hpred, if_pos (by omega), if_pos (by omega),
        ih _ hsmall (by omega), ih _ hsmall hle]

theorem encode_of_lt {value : Nat} (h : value < 128) : encode value = [UInt8.ofNat value] := by
  unfold encode
  cases value with
  | zero => rfl
  | succ value => exact if_neg (by omega)

theorem encode_of_le {value : Nat} (h : 128 ≤ value) :
    encode value = UInt8.ofNat (value % 128 + 128) :: encode (value / 128) := by
  obtain ⟨pred, rfl⟩ := Nat.exists_eq_succ_of_ne_zero (show value ≠ 0 by omega)
  have hle : (pred + 1) / 128 ≤ pred := by omega
  conv_lhs => unfold encode
  rw [encodeFrom, if_pos (by omega), low_bits, shift_seven, encodeFrom_eq hle]

theorem encode_ne_nil (value : Nat) : encode value ≠ [] := by
  rcases Nat.lt_or_ge value 128 with h | h
  · rw [encode_of_lt h]
    exact List.cons_ne_nil _ _
  · rw [encode_of_le h]
    exact List.cons_ne_nil _ _

/-! ## Reading -/

inductive Fault where
  | truncated
  | padded
  | oversized
  deriving DecidableEq, Repr

/-- The loop of the reader, with the bytes it may still take. -/
def readFrom : Nat → Nat → Nat → Bytes → Except Fault (Nat × Bytes)
  | 0, _, _, _ => .error .oversized
  | _ + 1, _, _, [] => .error .truncated
  | left + 1, shift, value, octet :: rest =>
      let value := value ||| ((octet.toNat &&& 0x7F) <<< shift)
      if octet.toNat < 0x80 then
        if shift ≠ 0 ∧ octet = 0 then .error .padded else .ok (value, rest)
      else readFrom left (shift + 7) value rest

/-- Read one number of at most `limit` bytes. -/
def read (limit : Nat) (bytes : Bytes) : Except Fault (Nat × Bytes) := readFrom limit 0 0 bytes

/-- The bits of one byte go above the bits read so far. -/
theorem or_shift {value shift : Nat} (h : value < 2 ^ shift) (octet : Nat) :
    value ||| ((octet &&& 0x7F) <<< shift) = value + octet % 128 * 2 ^ shift := by
  have hlow : octet &&& 0x7F = octet % 128 := Nat.and_two_pow_sub_one_eq_mod octet 7
  rw [hlow, Nat.shiftLeft_eq, Nat.or_comm, Nat.mul_comm, ← Nat.two_pow_add_eq_or_of_lt h]
  omega

/-- **The reader takes exactly what the writer writes**, if it is short enough. -/
theorem readFrom_ok {left shift value n : Nat} {bytes rest : Bytes} (hvalue : value < 2 ^ shift)
    (hleft : left = 0 → shift ≠ 0) :
    readFrom left shift value bytes = .ok (n, rest) ↔
      ∃ m, bytes = encode m ++ rest ∧ n = value + m * 2 ^ shift ∧ m < 2 ^ (7 * left)
        ∧ (shift ≠ 0 → m ≠ 0) := by
  induction left generalizing shift value bytes with
  | zero =>
      refine ⟨fun h => absurd h (by simp [readFrom]), ?_⟩
      rintro ⟨m, -, -, hm, hne⟩
      exact absurd (Nat.lt_one_iff.mp hm) (hne (hleft rfl))
  | succ left ih =>
      have hpow : 2 ^ (7 * (left + 1)) = 2 ^ (7 * left) * 128 := by
        rw [Nat.mul_succ, Nat.pow_add]
      have hshift : 2 ^ (shift + 7) = 2 ^ shift * 128 := Nat.pow_add 2 shift 7
      cases bytes with
      | nil =>
          refine ⟨fun h => absurd h (by simp [readFrom]), ?_⟩
          rintro ⟨m, hbytes, -⟩
          exact absurd (List.append_eq_nil_iff.mp hbytes.symm).1 (encode_ne_nil m)
      | cons octet bytes =>
          have hbyte : octet.toNat < 256 := octet.toNat_lt
          rw [readFrom, or_shift hvalue]
          by_cases hlast : octet.toNat < 0x80
          · have hself : octet.toNat % 128 = octet.toNat := Nat.mod_eq_of_lt hlast
            have hencode : encode octet.toNat = [octet] := by
              rw [encode_of_lt hlast, UInt8.ofNat_toNat]
            rw [if_pos hlast, hself]
            constructor
            · intro h
              split at h
              · exact absurd h (by simp)
              rename_i hpadded
              injection h with h
              injection h with hn hrest
              refine ⟨octet.toNat, by rw [hencode, hrest]; rfl, hn.symm, ?_, fun hs hz => ?_⟩
              · rw [hpow]
                have := Nat.two_pow_pos (7 * left)
                omega
              · exact hpadded ⟨hs, UInt8.toNat_inj.mp hz⟩
            · rintro ⟨m, hbytes, hn, -, hne⟩
              obtain ⟨rfl, rfl⟩ : m = octet.toNat ∧ rest = bytes := by
                rcases Nat.lt_or_ge m 128 with hm | hm
                · rw [encode_of_lt hm, List.singleton_append, List.cons.injEq] at hbytes
                  exact ⟨by rw [hbytes.1, toNat_byte (by omega)], hbytes.2.symm⟩
                · rw [encode_of_le hm, List.cons_append, List.cons.injEq] at hbytes
                  rw [hbytes.1, toNat_byte (by omega)] at hlast
                  omega
              rw [if_neg fun hzero => hne hzero.1 (by rw [hzero.2]; rfl), hn]
          · have hnext : value + octet.toNat % 128 * 2 ^ shift < 2 ^ (shift + 7) := by
              have := Nat.mul_le_mul_right (2 ^ shift) (show octet.toNat % 128 ≤ 127 by omega)
              omega
            rw [if_neg hlast, ih hnext fun _ => Nat.succ_ne_zero _, hshift]
            constructor
            · rintro ⟨m, hbytes, hn, hm, hne⟩
              have hzero := hne (Nat.succ_ne_zero _)
              refine ⟨octet.toNat % 128 + 128 * m, ?_, ?_, by omega, by omega⟩
              · rw [encode_of_le (by omega), show (octet.toNat % 128 + 128 * m) / 128 = m by omega,
                  show (octet.toNat % 128 + 128 * m) % 128 + 128 = octet.toNat by omega,
                  UInt8.ofNat_toNat, hbytes]
                rfl
              · rw [hn]
                ring
            · rintro ⟨m, hbytes, hn, hm, -⟩
              rcases Nat.lt_or_ge m 128 with hsmall | hlarge
              · rw [encode_of_lt hsmall, List.singleton_append, List.cons.injEq] at hbytes
                rw [hbytes.1, toNat_byte (by omega)] at hlast
                omega
              · rw [encode_of_le hlarge, List.cons_append, List.cons.injEq] at hbytes
                have hoctet : octet.toNat = m % 128 + 128 := by
                  rw [hbytes.1, toNat_byte (by omega)]
                refine ⟨m / 128, hbytes.2, ?_, by omega, fun _ => by omega⟩
                have hsplit : m = octet.toNat % 128 + 128 * (m / 128) := by omega
                rw [hn]
                conv_lhs => rw [hsplit]
                ring

/-- **Reading is the inverse of writing**, for numbers of at most `limit` bytes. -/
theorem read_ok {limit n : Nat} {bytes rest : Bytes} (hlimit : 0 < limit) :
    read limit bytes = .ok (n, rest) ↔ bytes = encode n ++ rest ∧ n < 2 ^ (7 * limit) := by
  unfold read
  rw [readFrom_ok (by decide) fun h => absurd h hlimit.ne']
  constructor
  · rintro ⟨m, hbytes, hn, hm, -⟩
    obtain rfl : n = m := by omega
    exact ⟨hbytes, hm⟩
  · rintro ⟨hbytes, hn⟩
    exact ⟨n, hbytes, by omega, hn, fun h => absurd rfl h⟩

end Varint

import AttestedCompute.Lib.Positional

/-!
# Byte strings and their hexadecimal spelling

A byte string is a list of bytes. Read big-endian it is a base-256 numeral, and
written as lowercase hexadecimal it is a base-16 numeral of twice the width with
the same value, so a comparison of spellings is a comparison of bytes.
-/

/-- An exact byte string. -/
abbrev Bytes := List UInt8

namespace Bytes

/-- The base-256 numeral of a byte string. -/
def nats (bs : Bytes) : List Nat := bs.map UInt8.toNat

/-- The big-endian value of a byte string. -/
def beValue (bs : Bytes) : Nat := Positional.value 256 bs.nats

/-- The little-endian value of a byte string. -/
def leValue (bs : Bytes) : Nat := beValue bs.reverse

/-- `n` as `w` big-endian bytes. -/
def ofNatBE (w n : Nat) : Bytes := (Positional.digits 256 w n).map UInt8.ofNat

/-- The byte at `i`, zero past the end. -/
def at0 (bs : Bytes) (i : Nat) : UInt8 := bs.getD i 0

theorem isNumeral_nats (bs : Bytes) : Positional.IsNumeral 256 bs.nats := by
  intro d hd
  obtain ⟨x, _, rfl⟩ := List.mem_map.mp hd
  exact x.toNat_lt

@[simp] theorem length_nats (bs : Bytes) : bs.nats.length = bs.length := List.length_map ..

theorem nats_append (xs ys : Bytes) : nats (xs ++ ys) = xs.nats ++ ys.nats := List.map_append

theorem nats_injective {xs ys : Bytes} (h : xs.nats = ys.nats) : xs = ys :=
  (List.map_injective_iff.mpr fun _ _ he => UInt8.toNat_inj.mp he) h

@[simp] theorem beValue_nil : beValue [] = 0 := rfl

theorem beValue_append (xs ys : Bytes) :
    beValue (xs ++ ys) = beValue xs * 256 ^ ys.length + beValue ys := by
  rw [beValue, nats_append, Positional.value_append, length_nats]
  rfl

theorem beValue_cons (x : UInt8) (xs : Bytes) :
    beValue (x :: xs) = x.toNat * 256 ^ xs.length + beValue xs := by
  show Positional.value 256 (x.toNat :: nats xs) = _
  rw [Positional.value_cons, length_nats]
  rfl

theorem beValue_lt (bs : Bytes) : beValue bs < 256 ^ bs.length := by
  rw [← length_nats bs]
  exact Positional.value_lt (isNumeral_nats bs)

/-- Byte strings of one length and one value are the same bytes. -/
theorem beValue_inj {xs ys : Bytes} (hlen : xs.length = ys.length)
    (h : beValue xs = beValue ys) : xs = ys :=
  nats_injective (Positional.value_inj (isNumeral_nats xs) (isNumeral_nats ys) (by simpa) h)

@[simp] theorem length_ofNatBE (w n : Nat) : (ofNatBE w n).length = w := by simp [ofNatBE]

theorem nats_ofNatBE (w n : Nat) : nats (ofNatBE w n) = Positional.digits 256 w n := by
  unfold nats ofNatBE
  rw [List.map_map]
  refine (List.map_congr_left fun d hd => ?_).trans (List.map_id _)
  have hlt : d < 256 := Positional.isNumeral_digits (by decide) w n d hd
  exact UInt8.toNat_ofNat_of_lt' hlt

theorem beValue_ofNatBE (w n : Nat) : beValue (ofNatBE w n) = n % 256 ^ w := by
  rw [beValue, nats_ofNatBE, Positional.value_digits]

theorem beValue_ofNatBE_of_lt {w n : Nat} (h : n < 256 ^ w) : beValue (ofNatBE w n) = n := by
  rw [beValue_ofNatBE, Nat.mod_eq_of_lt h]

theorem ofNatBE_beValue (bs : Bytes) : ofNatBE bs.length (beValue bs) = bs := by
  refine beValue_inj (by simp) ?_
  rw [beValue_ofNatBE, Nat.mod_eq_of_lt (beValue_lt bs)]

theorem beValue_replicate_zero (n : Nat) : beValue (List.replicate n 0) = 0 := by
  rw [beValue, nats, List.map_replicate]
  exact Positional.value_replicate_zero 256 n

/-- A byte string denotes zero exactly when every byte is zero. -/
theorem beValue_eq_zero_iff {bs : Bytes} :
    beValue bs = 0 ↔ bs = List.replicate bs.length 0 := by
  constructor
  · intro h
    exact beValue_inj (by simp) (by rw [h, beValue_replicate_zero])
  · intro h
    rw [h, beValue_replicate_zero]

theorem at0_drop (bs : Bytes) (n k : Nat) : at0 (bs.drop n) k = bs.at0 (n + k) := by
  rw [at0, at0, List.getD_eq_getElem?_getD, List.getD_eq_getElem?_getD, List.getElem?_drop]

theorem at0_take {n k : Nat} (h : k < n) (bs : Bytes) : at0 (bs.take n) k = bs.at0 k := by
  rw [at0, at0, List.getD_eq_getElem?_getD, List.getD_eq_getElem?_getD,
    List.getElem?_take_of_lt h]

/-- Byte strings of one length with the same bytes. -/
theorem eq_of_at0 {xs ys : Bytes} (hlen : xs.length = ys.length)
    (h : ∀ i, i < xs.length → xs.at0 i = ys.at0 i) : xs = ys := by
  refine List.ext_getElem hlen fun i hx hy => ?_
  have hi := h i hx
  rwa [at0, at0, List.getD_eq_getElem _ _ hx, List.getD_eq_getElem _ _ hy] at hi

theorem nats_slice (bs : Bytes) (i w : Nat) :
    nats ((bs.drop i).take w) = (bs.nats.drop i).take w := by
  rw [nats, nats, List.map_take, List.map_drop]

/-- The value of a slice, read off the value of the whole string. -/
theorem beValue_slice {bs : Bytes} {i w : Nat} (hw : i + w ≤ bs.length) :
    beValue ((bs.drop i).take w) = beValue bs / 256 ^ (bs.length - i - w) % 256 ^ w := by
  have h := Positional.value_slice (isNumeral_nats bs) (i := i) (w := w) (by simpa using hw)
  rw [beValue, nats_slice, h, length_nats]
  rfl

/-! ## Hexadecimal -/

/-- The lowercase hexadecimal digit of a nibble. -/
def hexDigit (d : Nat) : Char := "0123456789abcdef".toList.getD d '0'

/-- The nibble a lowercase hexadecimal digit denotes. -/
def hexNibble (c : Char) : Option Nat :=
  if '0'.toNat ≤ c.toNat ∧ c.toNat ≤ '9'.toNat then some (c.toNat - '0'.toNat)
  else if 'a'.toNat ≤ c.toNat ∧ c.toNat ≤ 'f'.toNat then some (c.toNat - 'a'.toNat + 10)
  else none

/-- The nibbles of a byte string, most significant first. -/
def nibbles (bs : Bytes) : List Nat := bs.nats.flatMap (Positional.digits 16 2)

/-- The characters of the lowercase hexadecimal spelling of a byte string. -/
def hexChars (bs : Bytes) : List Char := bs.nibbles.map hexDigit

/-- The lowercase hexadecimal spelling of a byte string. -/
def hex (bs : Bytes) : String := String.ofList bs.hexChars

theorem hexNibble_hexDigit {d : Nat} (h : d < 16) : hexNibble (hexDigit d) = some d := by
  interval_cases d <;> decide

theorem hexNibble_lt {c : Char} {d : Nat} (h : hexNibble c = some d) : d < 16 := by
  have h0 : '0'.toNat = 48 := rfl
  have h9 : '9'.toNat = 57 := rfl
  have ha : 'a'.toNat = 97 := rfl
  have hf : 'f'.toNat = 102 := rfl
  unfold hexNibble at h
  split at h
  · injection h with h; omega
  · split at h
    · injection h with h; omega
    · exact absurd h (by simp)

/-- A lowercase digit is the spelling of its own nibble. -/
theorem hexDigit_hexNibble {c : Char} {d : Nat} (h : hexNibble c = some d) : hexDigit d = c := by
  have hd := hexNibble_lt h
  have hback := hexNibble_hexDigit hd
  have h0 : '0'.toNat = 48 := rfl
  have h9 : '9'.toNat = 57 := rfl
  have ha : 'a'.toNat = 97 := rfl
  have hf : 'f'.toNat = 102 := rfl
  have hnat : (hexDigit d).toNat = c.toNat := by
    unfold hexNibble at h hback
    split at h <;> split at hback
    · injection h with h; injection hback with hback; omega
    · split at hback
      · injection h with h; injection hback with hback; omega
      · exact absurd hback (by simp)
    · split at h
      · injection h with h; injection hback with hback; omega
      · exact absurd h (by simp)
    · split at h <;> split at hback
      · injection h with h; injection hback with hback; omega
      · exact absurd hback (by simp)
      · exact absurd h (by simp)
      · exact absurd h (by simp)
  exact Char.toNat_inj.mp hnat

theorem isNumeral_nibbles (bs : Bytes) : Positional.IsNumeral 16 bs.nibbles := by
  intro d hd
  obtain ⟨x, _, hx⟩ := List.mem_flatMap.mp hd
  exact Positional.isNumeral_digits (by decide) 2 x d hx

@[simp] theorem length_nibbles (bs : Bytes) : bs.nibbles.length = 2 * bs.length := by
  simp [nibbles, List.length_flatMap, mul_comm]

/-- The nibbles of a byte string denote the number its bytes denote. -/
theorem value_nibbles (bs : Bytes) : Positional.value 16 bs.nibbles = beValue bs :=
  Positional.value_flatMap_digits (b := 16) (k := 2) (isNumeral_nats bs)

/-- The nibbles of a byte string are the base-16 digits of its value. -/
theorem nibbles_eq_digits (bs : Bytes) :
    bs.nibbles = Positional.digits 16 (2 * bs.length) (beValue bs) := by
  rw [← value_nibbles, ← length_nibbles]
  exact (Positional.digits_value (isNumeral_nibbles bs)).symm

theorem nibbles_injective {xs ys : Bytes} (h : xs.nibbles = ys.nibbles) : xs = ys := by
  refine beValue_inj ?_ (by rw [← value_nibbles, ← value_nibbles, h])
  have := congrArg List.length h
  simp only [length_nibbles] at this
  omega

theorem map_hexDigit_injective {xs ys : List Nat} (hx : Positional.IsNumeral 16 xs)
    (hy : Positional.IsNumeral 16 ys) (h : xs.map hexDigit = ys.map hexDigit) : xs = ys := by
  have key : ∀ zs : List Nat, Positional.IsNumeral 16 zs →
      (zs.map hexDigit).map hexNibble = zs.map some := by
    intro zs hz
    rw [List.map_map]
    exact List.map_congr_left fun d hd => hexNibble_hexDigit (hz d hd)
  have hsome : xs.map some = ys.map some := by rw [← key xs hx, ← key ys hy, h]
  exact (List.map_injective_iff.mpr (Option.some_injective _)) hsome

/-- **The hexadecimal spelling determines the bytes.** -/
theorem hex_injective {xs ys : Bytes} (h : hex xs = hex ys) : xs = ys :=
  nibbles_injective (map_hexDigit_injective (isNumeral_nibbles xs) (isNumeral_nibbles ys)
    (String.ofList_injective h))

theorem hex_append (xs ys : Bytes) : hex (xs ++ ys) = hex xs ++ hex ys := by
  rw [hex, hexChars, nibbles, nats_append, List.flatMap_append, List.map_append,
    String.ofList_append]
  rfl

@[simp] theorem length_hex (bs : Bytes) : (hex bs).length = 2 * bs.length := by
  simp [hex, hexChars]

/-- The bytes that pairs of lowercase hexadecimal digits spell. -/
def ofHexChars : List Char → Option Bytes
  | [] => some []
  | [_] => none
  | high :: low :: rest => do
      let h ← hexNibble high
      let l ← hexNibble low
      let bs ← ofHexChars rest
      pure (UInt8.ofNat (16 * h + l) :: bs)

/-- **Reading back the spelling that was written.** -/
theorem ofHexChars_hex (bs : Bytes) : ofHexChars (hex bs).toList = some bs := by
  rw [show (hex bs).toList = bs.nibbles.map hexDigit from String.toList_ofList]
  induction bs with
  | nil => rfl
  | cons x bs ih =>
      have hx := x.toNat_lt
      have hcons : nibbles (x :: bs) = x.toNat / 16 % 16 :: x.toNat % 16 :: nibbles bs := rfl
      have hbyte : UInt8.ofNat (16 * (x.toNat / 16 % 16) + x.toNat % 16) = x := by
        have hvalue : 16 * (x.toNat / 16 % 16) + x.toNat % 16 = x.toNat := by omega
        rw [hvalue, UInt8.ofNat_toNat]
      rw [hcons, List.map_cons, List.map_cons, ofHexChars, hexNibble_hexDigit (by omega),
        hexNibble_hexDigit (by omega), ih]
      exact congrArg (fun b => some (b :: bs)) hbyte

/-- **Every even run of lowercase hexadecimal digits spells bytes.** -/
theorem exists_hex_eq (n : Nat) {cs : List Char} (hlen : cs.length = 2 * n)
    (hcs : ∀ c ∈ cs, (hexNibble c).isSome) :
    ∃ bs : Bytes, bs.length = n ∧ bs.hex = String.ofList cs := by
  induction n generalizing cs with
  | zero =>
      rw [List.length_eq_zero_iff.mp hlen]
      exact ⟨[], rfl, rfl⟩
  | succ n ih =>
      match cs, hlen with
      | high :: low :: rest, hlen =>
          have hrest : rest.length = 2 * n := by
            rw [List.length_cons, List.length_cons] at hlen
            omega
          obtain ⟨bs, hbs, hhex⟩ := ih hrest fun c hc => hcs c (by simp [hc])
          obtain ⟨h, hhigh⟩ := Option.isSome_iff_exists.mp (hcs high (by simp))
          obtain ⟨l, hlow⟩ := Option.isSome_iff_exists.mp (hcs low (by simp))
          have hh := hexNibble_lt hhigh
          have hl := hexNibble_lt hlow
          have hbyte : nibbles [UInt8.ofNat (16 * h + l)] = [h, l] := by
            have hnat : (UInt8.ofNat (16 * h + l)).toNat = 16 * h + l :=
              UInt8.toNat_ofNat_of_lt' (show 16 * h + l < 256 by omega)
            have hdigits : ∀ k, nibbles [UInt8.ofNat k]
                = [(UInt8.ofNat k).toNat / 16 % 16, (UInt8.ofNat k).toNat % 16] := fun _ => rfl
            rw [hdigits, hnat, show (16 * h + l) / 16 % 16 = h by omega,
              show (16 * h + l) % 16 = l by omega]
          refine ⟨[UInt8.ofNat (16 * h + l)] ++ bs, by simp [hbs], ?_⟩
          rw [hex_append, hhex, hex, hexChars, hbyte, ← String.ofList_append]
          show String.ofList (hexDigit h :: hexDigit l :: rest) = _
          rw [hexDigit_hexNibble hhigh, hexDigit_hexNibble hlow]

end Bytes

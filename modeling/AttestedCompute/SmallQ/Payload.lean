import AttestedCompute.Lib.ByteString
import AttestedCompute.Lib.Fallible

/-!
# Two-bit payloads

The payload of a frame of `tg_verifier/dirichlet_booker_smallq_packed_stream_v1.py`: four sign codes
a byte, the first code in the lowest bits. The writer keeps up to three codes between its calls, the
reader takes the payload in pieces, and both come to one function from codes to bytes.
-/

namespace AttestedCompute.SmallQ

open Fallible

/-- How a function of the packed stream ends when it does not return. -/
inductive Failure where
  /-- `SmallQPackedStreamV1Error` with its message. -/
  | failed (message : String)
  /-- `struct.error` -/
  | struct
  deriving DecidableEq, Repr

abbrev Checked := Except Failure

/-- `if condition: _fail(message)` -/
def failIf (condition : Prop) [Decidable condition] (message : String) : Checked Unit :=
  refuseIf condition (.failed message)

@[simp] theorem failIf_ok {condition : Prop} [Decidable condition] {message : String} {u : Unit} :
    failIf condition message = .ok u ↔ ¬ condition := refuseIf_ok

/-- `_read_exact`: the bytes that are read and the stream that is left. -/
def readExact (stream : Bytes) (count : Nat) (label : String) : Checked (Bytes × Bytes) := do
  failIf ((stream.take count).length ≠ count) ("truncated " ++ label)
  pure (stream.take count, stream.drop count)

theorem readExact_ok {stream raw rest : Bytes} {count : Nat} {label : String} :
    readExact stream count label = .ok (raw, rest) ↔ raw.length = count ∧ stream = raw ++ rest := by
  simp only [readExact, bind_ok, failIf_ok, pure_ok, not_not, Prod.mk.injEq]
  constructor
  · intro h
    obtain ⟨_, hlength, rfl, rfl⟩ := h
    exact ⟨hlength, (List.take_append_drop count stream).symm⟩
  · intro h
    obtain ⟨rfl, rfl⟩ := h
    exact ⟨(), by rw [List.take_left], List.take_left, List.drop_left⟩

def AMBIGUOUS_CODE : Int := 0
def NEGATIVE_CODE : Int := 1
def POSITIVE_CODE : Int := 2
def RESERVED_CODE : Int := 3

def signCodes : List Int := [AMBIGUOUS_CODE, NEGATIVE_CODE, POSITIVE_CODE]

/-! ## Writing -/

/-- Codes two bits apart, the first lowest. -/
def packBits (codes : List Int) : Nat :=
  (codes.zipIdx.map fun (code, ordinal) => code.toNat <<< (2 * ordinal)).foldl (· ||| ·) 0

/-- `_FramePayloadWriter`: the codes that wait for a full byte and the bytes that were written. The
digests that it updates are digests of these bytes. -/
structure PayloadWriter where
  pending : List Int := []
  written : Bytes := []
  deriving DecidableEq, Repr

namespace PayloadWriter

/-- `_append_one` -/
def appendOne (w : PayloadWriter) (code : Int) : Checked PayloadWriter := do
  failIf (code ∉ signCodes) "strict-sign producer attempted to emit a reserved code"
  let pending := w.pending ++ [code]
  if pending.length = 4 then
    pure ⟨[], w.written ++ [UInt8.ofNat (packBits pending)]⟩
  else pure ⟨pending, w.written⟩

/-- `append` -/
def append (w : PayloadWriter) (codes : List Int) : Checked PayloadWriter :=
  codes.foldlM appendOne w

/-- `finish`, the payload that was written. -/
def finish (w : PayloadWriter) : Bytes :=
  if w.pending = [] then w.written else w.written ++ [UInt8.ofNat (packBits w.pending)]

end PayloadWriter

/-! ## Reading -/

/-- The loop over the bit positions of a byte. It returns the codes and how many are still to come. -/
def byteCodes (byte : Nat) : List Nat → Nat → Checked (List Int × Nat)
  | [], remainingItems => pure ([], remainingItems)
  | shift :: shifts, remainingItems =>
      if remainingItems = 0 then do
        failIf (byte >>> shift ≠ 0) "TGDBSPK1 has nonzero unused padding bits"
        pure ([], 0)
      else do
        let code : Int := ((byte >>> shift) &&& 3 : Nat)
        failIf (code = RESERVED_CODE) "TGDBSPK1 contains reserved sign code 3"
        let (codes, remainingItems) ← byteCodes byte shifts (remainingItems - 1)
        pure (code :: codes, remainingItems)

/-- The loop over the bytes of a piece. -/
def pieceCodes : Bytes → Nat → Checked (List Int × Nat)
  | [], remainingItems => pure ([], remainingItems)
  | byte :: raw, remainingItems => do
      let (codes, remainingItems) ← byteCodes byte.toNat [0, 2, 4, 6] remainingItems
      let (rest, remainingItems) ← pieceCodes raw remainingItems
      pure (codes ++ rest, remainingItems)

/-- What the loop over a payload leaves behind. -/
structure PayloadRead where
  chunks : List (List Int)
  remainingItems : Nat
  payload : Bytes
  stream : Bytes

/-- The loop over the pieces of a payload. -/
def readPayload (chunkItems remainingItems remainingBytes : Nat) (stream : Bytes) :
    Checked PayloadRead :=
  if remainingBytes = 0 then pure ⟨[], remainingItems, [], stream⟩
  else do
    let count := min remainingBytes (max 1 ((chunkItems + 3) / 4))
    let (raw, stream) ← readExact stream count "TGDBSPK1 packed codes"
    let (codes, remainingItems) ← pieceCodes raw remainingItems
    let rest ← readPayload chunkItems remainingItems (remainingBytes - count) stream
    pure ⟨if codes = [] then rest.chunks else codes :: rest.chunks, rest.remainingItems,
      raw ++ rest.payload, rest.stream⟩
termination_by remainingBytes
decreasing_by omega

/-! ## One function from codes to bytes -/

def IsSignCode (code : Int) : Prop := code ∈ signCodes

theorem isSignCode_iff {code : Int} : IsSignCode code ↔ 0 ≤ code ∧ code < 3 := by
  simp only [IsSignCode, signCodes, AMBIGUOUS_CODE, NEGATIVE_CODE, POSITIVE_CODE, List.mem_cons,
    List.not_mem_nil, or_false]
  omega

/-- The number that codes are base-4 digits of. -/
def codesValue (codes : List Int) : Nat := Nat.ofDigits 4 (codes.map Int.toNat)

theorem codesValue_cons (code : Int) (codes : List Int) :
    codesValue (code :: codes) = code.toNat + 4 * codesValue codes := by
  rw [codesValue, List.map_cons, Nat.ofDigits_cons]
  rfl

theorem codesValue_lt {codes : List Int} (h : ∀ code ∈ codes, IsSignCode code) :
    codesValue codes < 4 ^ codes.length := by
  induction codes with
  | nil => exact Nat.one_pos
  | cons code codes ih =>
      have hcode := isSignCode_iff.mp (h code List.mem_cons_self)
      have hcodes := ih fun c hc => h c (List.mem_cons_of_mem code hc)
      rw [codesValue_cons, List.length_cons, pow_succ]
      omega

theorem packBits_eq {codes : List Int} (h : ∀ code ∈ codes, IsSignCode code) :
    packBits codes = codesValue codes := by
  induction codes using List.reverseRecOn with
  | nil => rfl
  | append_singleton codes code ih =>
      have hcodes : ∀ c ∈ codes, IsSignCode c := fun c hc => h c (List.mem_append_left _ hc)
      have hlt : codesValue codes < 2 ^ (2 * codes.length) := by
        rw [pow_mul]
        exact codesValue_lt hcodes
      have hstep : packBits (codes ++ [code]) =
          packBits codes ||| code.toNat <<< (2 * codes.length) := by
        simp [packBits, List.zipIdx_append]
      rw [hstep, ih hcodes, Nat.lor_comm, ← Nat.shiftLeft_add_eq_or_of_lt hlt, Nat.shiftLeft_eq,
        pow_mul, codesValue, codesValue, List.map_append, Nat.ofDigits_append, List.length_map]
      have hone : Nat.ofDigits 4 ([code].map Int.toNat) = code.toNat := by
        rw [List.map_singleton, Nat.ofDigits_singleton]
      rw [hone]
      ring

/-- The payload of codes, four to a byte. -/
def payload (codes : List Int) : Bytes :=
  if codes = [] then []
  else UInt8.ofNat (packBits (codes.take 4)) :: payload (codes.drop 4)
termination_by codes.length
decreasing_by
  have := List.length_pos_of_ne_nil (by assumption)
  rw [List.length_drop]
  omega

@[simp] theorem payload_nil : payload [] = [] := by rw [payload, if_pos rfl]

/-- A full or a last byte. -/
theorem payload_append_of_length {front codes : List Int} (hne : front ≠ [])
    (h : front.length = 4 ∨ front.length < 4 ∧ codes = []) :
    payload (front ++ codes) = UInt8.ofNat (packBits front) :: payload codes := by
  have hsplit : (front ++ codes).take 4 = front ∧ (front ++ codes).drop 4 = codes := by
    rcases h with h | ⟨h, rfl⟩
    · exact ⟨by rw [← h, List.take_left], by rw [← h, List.drop_left]⟩
    · rw [List.append_nil]
      exact ⟨List.take_of_length_le h.le, List.drop_of_length_le h.le⟩
  rw [payload, if_neg (by simp [hne]), hsplit.1, hsplit.2]

/-- Payloads join at a byte border. -/
theorem payload_append {front : List Int} (h : front.length % 4 = 0) (codes : List Int) :
    payload (front ++ codes) = payload front ++ payload codes := by
  induction hn : front.length / 4 generalizing front with
  | zero =>
      obtain rfl : front = [] := List.length_eq_zero_iff.mp (by omega)
      rw [payload_nil]
      rfl
  | succ n ih =>
      have hfour : (front.take 4).length = 4 := by
        rw [List.length_take]
        omega
      have hrest : (front.drop 4).length = front.length - 4 := List.length_drop
      have hne : front.take 4 ≠ [] := List.ne_nil_of_length_pos (by omega)
      have hsplit := List.take_append_drop 4 front
      rw [← hsplit, List.append_assoc, payload_append_of_length hne (Or.inl hfour),
        payload_append_of_length hne (Or.inl hfour), ih (by omega) (by omega)]
      rfl

theorem length_payload (codes : List Int) : (payload codes).length = (codes.length + 3) / 4 := by
  induction hn : codes.length using Nat.strong_induction_on generalizing codes with
  | _ n ih =>
      by_cases hne : codes = []
      · subst hne
        rw [payload_nil, ← hn]
        rfl
      · have hpos := List.length_pos_of_ne_nil hne
        rw [payload, if_neg hne, List.length_cons,
          ih (codes.drop 4).length (by rw [List.length_drop]; omega) _ rfl, List.length_drop]
        omega

/-! ## The writer -/

/-- What the writer holds after it was given `codes`. -/
structure PayloadWriter.Holds (codes : List Int) (w : PayloadWriter) : Prop where
  valid : ∀ code ∈ codes, IsSignCode code
  full : ∃ front, front.length % 4 = 0 ∧ codes = front ++ w.pending ∧ w.written = payload front
  short : w.pending.length < 4

theorem holds_empty : PayloadWriter.Holds [] {} :=
  ⟨fun code hcode => (by cases hcode), ⟨[], rfl, rfl, payload_nil.symm⟩, Nat.zero_lt_succ 3⟩

theorem holds_appendOne {codes : List Int} {w w' : PayloadWriter} {code : Int}
    (h : w.Holds codes) (hstep : w.appendOne code = .ok w') : w'.Holds (codes ++ [code]) := by
  obtain ⟨hvalid, ⟨front, hfront, rfl, hwritten⟩, hshort⟩ := h
  simp only [PayloadWriter.appendOne, bind_ok, failIf_ok, not_not] at hstep
  obtain ⟨_, hcode, hstep⟩ := hstep
  have hvalid' : ∀ c ∈ front ++ w.pending ++ [code], IsSignCode c := by
    intro c hc
    rcases List.mem_append.mp hc with hc | hc
    · exact hvalid c hc
    · rw [List.mem_singleton.mp hc]
      exact hcode
  split at hstep
  · -- the fourth code completes a byte
    rename_i hfour
    obtain rfl := Except.ok.inj hstep
    refine ⟨hvalid', ⟨front ++ (w.pending ++ [code]), ?_, by simp, ?_⟩, Nat.zero_lt_succ 3⟩
    · rw [List.length_append]
      omega
    · have hbyte := @payload_append_of_length _ [] (List.concat_ne_nil code w.pending)
        (Or.inl hfour)
      rw [List.append_nil] at hbyte
      rw [payload_append hfront, hwritten, hbyte, payload_nil]
  · rename_i hfour
    obtain rfl := Except.ok.inj hstep
    refine ⟨hvalid', ⟨front, hfront, List.append_assoc _ _ _, hwritten⟩, ?_⟩
    rw [List.length_append, List.length_singleton] at hfour ⊢
    omega

theorem holds_append {codes more : List Int} {w w' : PayloadWriter} (h : w.Holds codes)
    (hstep : w.append more = .ok w') : w'.Holds (codes ++ more) := by
  induction more generalizing codes w with
  | nil =>
      obtain rfl := Except.ok.inj hstep
      rwa [List.append_nil]
  | cons code more ih =>
      simp only [PayloadWriter.append, List.foldlM_cons, bind_ok] at hstep
      obtain ⟨next, hone, hmore⟩ := hstep
      have := ih (holds_appendOne h hone) hmore
      rwa [List.append_assoc] at this

theorem exists_append {more : List Int} (w : PayloadWriter) (h : ∀ code ∈ more, IsSignCode code) :
    ∃ w', w.append more = .ok w' := by
  induction more generalizing w with
  | nil => exact ⟨w, rfl⟩
  | cons code more ih =>
      obtain ⟨next, hone⟩ : ∃ next, w.appendOne code = .ok next := by
        simp only [PayloadWriter.appendOne, bind_ok, failIf_ok, not_not]
        by_cases hfour : (w.pending ++ [code]).length = 4
        · exact ⟨_, (), h code List.mem_cons_self, by rw [if_pos hfour]; rfl⟩
        · exact ⟨_, (), h code List.mem_cons_self, by rw [if_neg hfour]; rfl⟩
      obtain ⟨w', hmore⟩ := ih next fun c hc => h c (List.mem_cons_of_mem code hc)
      refine ⟨w', ?_⟩
      simp only [PayloadWriter.append, List.foldlM_cons, bind_ok]
      exact ⟨next, hone, hmore⟩

theorem finish_eq {codes : List Int} {w : PayloadWriter} (h : w.Holds codes) :
    w.finish = payload codes := by
  obtain ⟨_, ⟨front, hfront, rfl, hwritten⟩, hshort⟩ := h
  rw [payload_append hfront, PayloadWriter.finish, hwritten]
  by_cases hpending : w.pending = []
  · rw [if_pos hpending, hpending, payload_nil, List.append_nil]
  · have hbyte := payload_append_of_length hpending (Or.inr ⟨hshort, rfl⟩)
    rw [List.append_nil, payload_nil] at hbyte
    rw [if_neg hpending, hbyte]

/-- **The payload does not depend on the write calls.** -/
theorem foldlM_append (writes : List (List Int)) (w : PayloadWriter) :
    writes.foldlM PayloadWriter.append w = w.append writes.flatten := by
  induction writes generalizing w with
  | nil => rfl
  | cons codes writes ih =>
      have hsplit : w.append (codes ++ writes.flatten) =
          w.append codes >>= fun next => next.append writes.flatten := List.foldlM_append
      rw [List.foldlM_cons, List.flatten_cons, hsplit]
      exact congrArg (w.append codes >>= ·) (funext ih)

/-- The codes that one frame's writer takes, and what it writes. -/
theorem append_ok {codes : List Int} {w : PayloadWriter}
    (h : PayloadWriter.append {} codes = .ok w) :
    (∀ code ∈ codes, IsSignCode code) ∧ w.finish = payload codes := by
  have hholds := holds_append holds_empty h
  rw [List.nil_append] at hholds
  exact ⟨hholds.valid, finish_eq hholds⟩

/-! ## The reader -/

theorem shift_eq (byte k : Nat) : byte >>> (2 * k) = byte / 4 ^ k := by
  rw [Nat.shiftRight_eq_div_pow, pow_mul]
  rfl

theorem byteCodes_ok {byte n k remaining remaining' : Nat} {codes : List Int}
    (hbyte : byte / 4 ^ k < 4 ^ n) :
    byteCodes byte ((List.range' k n).map (2 * ·)) remaining = .ok (codes, remaining') ↔
      codes.length = min n remaining ∧ remaining' = remaining - codes.length ∧
        (∀ code ∈ codes, IsSignCode code) ∧ byte / 4 ^ k = codesValue codes := by
  induction n generalizing k remaining remaining' codes with
  | zero =>
      rw [List.range'_zero, List.map_nil, byteCodes, pure_ok, Prod.mk.injEq, Nat.zero_min,
        List.length_eq_zero_iff]
      constructor
      · intro h
        obtain ⟨rfl, rfl⟩ := h
        refine ⟨rfl, rfl, fun code hcode => (by cases hcode), ?_⟩
        rw [pow_zero] at hbyte
        exact Nat.lt_one_iff.mp hbyte
      · intro h
        obtain ⟨rfl, rfl, _⟩ := h
        exact ⟨rfl, rfl⟩
  | succ n ih =>
      have hnext : byte / 4 ^ (k + 1) = byte / 4 ^ k / 4 := by
        rw [pow_succ, Nat.div_div_eq_div_mul]
      have hdigit : (byte >>> (2 * k)) &&& 3 = byte / 4 ^ k % 4 := by
        rw [shift_eq]
        exact Nat.and_two_pow_sub_one_eq_mod _ 2
      rw [List.range'_succ, List.map_cons, byteCodes]
      by_cases hremaining : remaining = 0
      · rw [if_pos hremaining]
        simp only [bind_ok, failIf_ok, not_not, pure_ok, Prod.mk.injEq, shift_eq]
        subst hremaining
        rw [Nat.min_zero, List.length_eq_zero_iff]
        constructor
        · intro h
          obtain ⟨_, hzero, rfl, rfl⟩ := h
          exact ⟨rfl, rfl, fun code hcode => (by cases hcode), hzero⟩
        · intro h
          obtain ⟨rfl, rfl, _, hzero⟩ := h
          exact ⟨(), hzero, rfl, rfl⟩
      · rw [if_neg hremaining]
        simp only [bind_ok, failIf_ok, pure_ok, Prod.exists, Prod.mk.injEq, hdigit]
        have hrest : byte / 4 ^ (k + 1) < 4 ^ n := by
          rw [hnext]
          rw [pow_succ] at hbyte
          omega
        constructor
        · intro h
          obtain ⟨_, hcode, codes', _, hcodes, rfl, rfl⟩ := h
          obtain ⟨hlength, rfl, hvalid, hvalue⟩ := (ih hrest).mp hcodes
          have hlt : (((byte / 4 ^ k % 4 : Nat) : Int)) < 3 := by
            have : ((byte / 4 ^ k % 4 : Nat) : Int) ≠ 3 := hcode
            omega
          rw [List.length_cons]
          refine ⟨by omega, by omega, ?_, ?_⟩
          · intro code hmem
            rcases List.mem_cons.mp hmem with rfl | hmem
            · exact isSignCode_iff.mpr ⟨Int.natCast_nonneg _, hlt⟩
            · exact hvalid code hmem
          · rw [codesValue_cons, ← hvalue, hnext, Int.toNat_natCast]
            omega
        · intro h
          obtain ⟨hlength, rfl, hvalid, hvalue⟩ := h
          cases codes with
          | nil =>
              rw [List.length_nil] at hlength
              omega
          | cons code codes =>
              have hcode := isSignCode_iff.mp (hvalid code List.mem_cons_self)
              rw [codesValue_cons] at hvalue
              rw [List.length_cons] at hlength ⊢
              have hhead : ((byte / 4 ^ k % 4 : Nat) : Int) = code := by omega
              refine ⟨(), ?_, codes, _, (ih hrest).mpr ⟨by omega, rfl,
                fun c hc => hvalid c (List.mem_cons_of_mem code hc), by rw [hnext]; omega⟩,
                by rw [hhead], by omega⟩
              rw [hhead, RESERVED_CODE]
              omega

theorem pieceCodes_ok {raw : Bytes} {remaining remaining' : Nat} {codes : List Int}
    (hraw : raw.length ≤ (remaining + 3) / 4) :
    pieceCodes raw remaining = .ok (codes, remaining') ↔
      codes.length = min (4 * raw.length) remaining ∧ remaining' = remaining - codes.length ∧
        (∀ code ∈ codes, IsSignCode code) ∧ raw = payload codes := by
  induction raw generalizing remaining remaining' codes with
  | nil =>
      rw [pieceCodes, pure_ok, Prod.mk.injEq, List.length_nil, Nat.mul_zero, Nat.zero_min,
        List.length_eq_zero_iff]
      constructor
      · intro h
        obtain ⟨rfl, rfl⟩ := h
        exact ⟨rfl, rfl, fun code hcode => (by cases hcode), payload_nil.symm⟩
      · intro h
        obtain ⟨rfl, rfl, _⟩ := h
        exact ⟨rfl, rfl⟩
  | cons byte raw ih =>
      rw [List.length_cons] at hraw
      have hrest : raw.length ≤ (remaining - min 4 remaining + 3) / 4 := by omega
      have hbyte : byte.toNat / 4 ^ 0 < 4 ^ 4 := by
        rw [pow_zero, Nat.div_one]
        exact byte.toNat_lt
      have hfirst : ∀ {codes remaining'},
          byteCodes byte.toNat [0, 2, 4, 6] remaining = .ok (codes, remaining') ↔ _ :=
        byteCodes_ok hbyte
      simp only [pow_zero, Nat.div_one] at hfirst
      simp only [pieceCodes, bind_ok, Prod.exists, pure_ok, Prod.mk.injEq, hfirst]
      constructor
      · intro h
        obtain ⟨front, _, ⟨hfront, rfl, hvalid, hvalue⟩, back, _, hback, rfl, rfl⟩ := h
        rw [hfront] at hback
        obtain ⟨hlength, rfl, hvalid', rfl⟩ := (ih hrest).mp hback
        have hpacked : UInt8.ofNat (packBits front) = byte := by
          rw [packBits_eq hvalid, ← hvalue, UInt8.ofNat_toNat]
        have hlast : front.length = 4 ∨ front.length < 4 ∧ back = [] := by
          by_cases hfour : front.length = 4
          · exact Or.inl hfour
          · exact Or.inr ⟨by omega, List.length_eq_zero_iff.mp (by omega)⟩
        rw [List.length_append, List.length_cons,
          payload_append_of_length (List.ne_nil_of_length_pos (by omega)) hlast, hpacked]
        refine ⟨by omega, by omega, ?_, rfl⟩
        intro code hcode
        rcases List.mem_append.mp hcode with hcode | hcode
        · exact hvalid code hcode
        · exact hvalid' code hcode
      · intro h
        obtain ⟨hlength, rfl, hvalid, hraw'⟩ := h
        rw [List.length_cons] at hlength
        have hne : codes ≠ [] := List.ne_nil_of_length_pos (by omega)
        rw [payload, if_neg hne, List.cons.injEq] at hraw'
        obtain ⟨rfl, rfl⟩ := hraw'
        have hfront : ∀ code ∈ codes.take 4, IsSignCode code :=
          fun code hcode => hvalid code (List.mem_of_mem_take hcode)
        have hfour : (codes.take 4).length = min 4 remaining := by
          rw [List.length_take]
          omega
        have hlt : codesValue (codes.take 4) < 2 ^ 8 :=
          (codesValue_lt hfront).trans_le
            (Nat.pow_le_pow_right (Nat.zero_lt_succ 3) (by omega : _ ≤ 4))
        have hvalue : (UInt8.ofNat (packBits (codes.take 4))).toNat = codesValue (codes.take 4) := by
          rw [packBits_eq hfront]
          exact UInt8.toNat_ofNat_of_lt' hlt
        have hdrop : (codes.drop 4).length = codes.length - 4 := List.length_drop
        rw [length_payload] at hlength hrest
        have hback := (@ih (remaining - min 4 remaining) _ (codes.drop 4)
          (by rw [length_payload]; exact hrest)).mpr ⟨by rw [length_payload]; omega, rfl,
            fun code hcode => hvalid code (List.mem_of_mem_drop hcode), rfl⟩
        rw [← hfour] at hback
        exact ⟨_, _, ⟨hfour, rfl, hfront, hvalue⟩, _, _, hback, List.take_append_drop 4 codes,
          by omega⟩

theorem readPayload_zero (chunkItems items : Nat) (stream : Bytes) :
    readPayload chunkItems items 0 stream = .ok ⟨[], items, [], stream⟩ := by
  rw [readPayload, if_pos rfl]
  rfl

theorem readPayload_succ {chunkItems items bytes : Nat} (hbytes : bytes ≠ 0) {stream : Bytes}
    {r : PayloadRead} :
    readPayload chunkItems items bytes stream = .ok r ↔
      ∃ raw stream', (raw.length = min bytes (max 1 ((chunkItems + 3) / 4)) ∧
        stream = raw ++ stream') ∧ ∃ codes items', pieceCodes raw items = .ok (codes, items') ∧
        ∃ rest, readPayload chunkItems items'
          (bytes - min bytes (max 1 ((chunkItems + 3) / 4))) stream' = .ok rest ∧
        ⟨if codes = [] then rest.chunks else codes :: rest.chunks, rest.remainingItems,
          raw ++ rest.payload, rest.stream⟩ = r := by
  rw [readPayload, if_neg hbytes]
  simp only [bind_ok, Prod.exists, readExact_ok, pure_ok]

/-- **What the reader takes for a payload is the payload of the codes that it gives.** -/
theorem readPayload_sound {chunkItems items : Nat} {stream : Bytes} {r : PayloadRead}
    (h : readPayload chunkItems items ((items + 3) / 4) stream = .ok r) :
    r.remainingItems = 0 ∧ r.chunks.flatten.length = items ∧
      (∀ code ∈ r.chunks.flatten, IsSignCode code) ∧ r.payload = payload r.chunks.flatten ∧
      stream = r.payload ++ r.stream := by
  induction items using Nat.strong_induction_on generalizing stream r with
  | _ items ih =>
      by_cases hzero : (items + 3) / 4 = 0
      · rw [hzero, readPayload_zero] at h
        obtain rfl := Except.ok.inj h
        obtain rfl : items = 0 := by omega
        exact ⟨rfl, rfl, fun code hcode => (by cases hcode), payload_nil.symm, rfl⟩
      · obtain ⟨raw, stream', ⟨hcount, rfl⟩, codes, items', hcodes, rest, hrest, rfl⟩ :=
          (readPayload_succ hzero).mp h
        obtain ⟨hlength, rfl, hvalid, rfl⟩ := (pieceCodes_ok (by omega)).mp hcodes
        -- only the last piece can hold fewer than four codes a byte
        have hbytes : (items + 3) / 4 - min ((items + 3) / 4) (max 1 ((chunkItems + 3) / 4)) =
            (items - codes.length + 3) / 4 := by omega
        rw [hbytes] at hrest
        obtain ⟨hzero', hlength', hvalid', hpayload, rfl⟩ :=
          ih (items - codes.length) (by omega) hrest
        have hne : codes ≠ [] := List.ne_nil_of_length_pos (by omega)
        rw [if_neg hne, List.flatten_cons, List.length_append, hlength']
        refine ⟨hzero', by omega, ?_, ?_, (List.append_assoc _ _ _).symm⟩
        · intro code hcode
          rcases List.mem_append.mp hcode with hcode | hcode
          · exact hvalid code hcode
          · exact hvalid' code hcode
        · rw [hpayload]
          by_cases hlast : rest.chunks.flatten = []
          · rw [hlast, payload_nil, List.append_nil, List.append_nil]
          · have := List.length_pos_of_ne_nil hlast
            exact (payload_append (by omega) _).symm

/-- **The reader takes every payload of sign codes, in whatever pieces it reads.** -/
theorem readPayload_complete (chunkItems : Nat) {codes : List Int} (rest : Bytes)
    (h : ∀ code ∈ codes, IsSignCode code) :
    ∃ chunks, chunks.flatten = codes ∧
      readPayload chunkItems codes.length ((codes.length + 3) / 4) (payload codes ++ rest) =
        .ok ⟨chunks, 0, payload codes, rest⟩ := by
  induction hn : codes.length using Nat.strong_induction_on generalizing codes with
  | _ n ih =>
      by_cases hne : codes = []
      · subst hne
        obtain rfl : 0 = n := hn
        refine ⟨[], rfl, ?_⟩
        rw [payload_nil]
        exact readPayload_zero chunkItems 0 rest
      · have hpos := List.length_pos_of_ne_nil hne
        obtain ⟨count, hcount⟩ :
          ∃ count, count = min ((n + 3) / 4) (max 1 ((chunkItems + 3) / 4)) := ⟨_, rfl⟩
        have hfront : (codes.take (4 * count)).length = min (4 * count) n := by
          rw [List.length_take, hn]
        have hback : (codes.drop (4 * count)).length = n - 4 * count := by
          rw [List.length_drop, hn]
        obtain ⟨chunks, hchunks, hrest⟩ := ih (codes.drop (4 * count)).length (by omega)
          (fun code hcode => h code (List.mem_of_mem_drop hcode)) rfl
        have hpayload : payload codes =
            payload (codes.take (4 * count)) ++ payload (codes.drop (4 * count)) := by
          by_cases hlast : n ≤ 4 * count
          · rw [List.take_of_length_le (by omega), List.drop_of_length_le (by omega), payload_nil,
              List.append_nil]
          · rw [← payload_append (by omega), List.take_append_drop]
        have hpiece : pieceCodes (payload (codes.take (4 * count))) n =
            .ok (codes.take (4 * count), (codes.drop (4 * count)).length) := by
          refine (pieceCodes_ok ?_).mpr ⟨?_, ?_, fun code hcode =>
            h code (List.mem_of_mem_take hcode), rfl⟩
          · rw [length_payload]
            omega
          · rw [length_payload]
            omega
          · omega
        have hbytes : (n + 3) / 4 - min ((n + 3) / 4) (max 1 ((chunkItems + 3) / 4)) =
            ((codes.drop (4 * count)).length + 3) / 4 := by omega
        rw [← hbytes] at hrest
        have hlength : (payload (codes.take (4 * count))).length =
            min ((n + 3) / 4) (max 1 ((chunkItems + 3) / 4)) := by
          rw [length_payload]
          omega
        have hfull : codes.take (4 * count) ≠ [] := List.ne_nil_of_length_pos (by omega)
        refine ⟨codes.take (4 * count) :: chunks, ?_, (readPayload_succ (by omega)).mpr
          ⟨_, payload (codes.drop (4 * count)) ++ rest, ⟨hlength, ?_⟩, _, _, hpiece, _, hrest, ?_⟩⟩
        · rw [List.flatten_cons, hchunks, List.take_append_drop]
        · rw [hpayload, List.append_assoc]
        · rw [if_neg hfull, hpayload]

end AttestedCompute.SmallQ

import AttestedCompute.Arithmetic.ChunkRecord

/-!
# Finite campaign certificates

What the two campaigns of `tg_verifier/finite_campaigns.py` share: how a certificate fails, exact
fractions in lowest terms, and the hash of a canonical JSON body.
-/

namespace AttestedCompute.Finite

open Fallible

/-- How a check ends when it does not return. -/
inductive Failure where
  /-- `FiniteCampaignError` with its message. -/
  | campaign (message : String)
  /-- An exception of `json.dumps` or of printing an integer. -/
  | codec (fault : Json.Fault)
  /-- A lookup in a dictionary without the key. -/
  | keyError (key : Int)
  deriving DecidableEq

abbrev Checked := Except Failure

/-- `_fail` behind a condition. -/
def failIf (bad : Prop) [Decidable bad] (message : String) : Checked Unit :=
  refuseIf bad (.campaign message)

@[simp] theorem failIf_ok {bad : Prop} [Decidable bad] {message : String} {u : Unit} :
    failIf bad message = .ok u ↔ ¬ bad := refuseIf_ok

/-- A message that prints an integer, which can itself fail. -/
def printing (n : Int) (message : String) : Failure :=
  if n.natAbs < 10 ^ 4300 then .campaign message else .codec .longInteger

/-- `_int` of an integer with a minimum. -/
def checkInt (name : String) (value minimum : Int) : Checked Unit :=
  failIf (value < minimum) (name ++ " must be at least " ++ toString minimum)

/-- `_digest` of a string. -/
def checkDigest (name : String) (value : Text) : Checked Unit :=
  failIf (Arithmetic.isDigest value = false) (name ++ " must be a lowercase SHA-256 digest")

/-- `_sha256` -/
def sha256 (value : Json) : Checked Text :=
  match Json.asciiBytes value with
  | .ok bytes => .ok (Arithmetic.sha256Bytes bytes)
  | .error fault => .error (.codec fault)

/-- `_fraction` -/
def fraction (name : String) (numerator denominator : Int) : Checked ℚ := do
  checkInt (name ++ ".denominator") denominator 1
  let value : ℚ := Rat.divInt numerator denominator
  failIf (value.num ≠ numerator ∨ (value.den : Int) ≠ denominator)
    (name ++ " must be stored in canonical lowest terms")
  pure value

/-- `_ceil` -/
def ceil (value : ℚ) : Int := -((-value.num) / value.den)

theorem ceil_eq (value : ℚ) : ceil value = ⌈value⌉ := by
  rw [ceil, Rat.ceil_def']

theorem sha256_of_fits {value : Json} (h : Json.fits value = true) :
    ∃ hash, sha256 value = .ok hash ∧ Arithmetic.isDigest hash = true := by
  obtain ⟨bytes, hbytes⟩ := Json.asciiBytes_isOk.mpr h
  exact ⟨Arithmetic.sha256Bytes bytes, by rw [sha256, hbytes], Arithmetic.isDigest_sha256Bytes bytes⟩

end AttestedCompute.Finite

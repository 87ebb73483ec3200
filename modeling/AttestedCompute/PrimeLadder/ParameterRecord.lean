import AttestedCompute.PrimeLadder.RangeCanonical

/-!
# Parameter records

`CampaignParameters.from_json` of `tg_verifier/goldbach_campaign.py`, against `to_json`. The
parameters of a manifest are an object of ten members; decimal strings have one spelling, so
an object is read exactly if `to_json` writes it.
-/

namespace AttestedCompute.PrimeLadder

open Fallible (bind_ok pure_ok)
open JsonLoads (Value)

/-! ## Reading parameters -/

def CampaignMode.ofName (name : Text) : Option CampaignMode :=
  [.fullSource, .boundedTest, .analytic10pow27].find? fun mode => Text.ofString mode.name = name

def parameterKeys : List String :=
  ["binary_first_even", "binary_last_even", "endpoint", "endpoint_tolerance", "maximum_gap",
    "mode", "proth_exponent", "range_count", "range_width", "seed_prime"]

def modeText : Value → Checked Text
  | .str name => .ok name
  | _ => fail "mode must be a string"

def plainInt : Value → Checked Int
  | .int n => .ok n
  | _ => fail "integer parameter type mismatch"

/-- `validate` refuses a mode it does not know. -/
def knownMode (name : Text) : Checked CampaignMode :=
  match CampaignMode.ofName name with
  | some mode => .ok mode
  | none => fail "unknown campaign mode"

/-- `CampaignParameters.from_json` -/
def CampaignParameters.fromJson (isPrime : Int → Bool) (root : Value) :
    Checked CampaignParameters :=
  match root with
  | .obj members => do
      raiseIf (hasKeys members (parameterKeys.map Text.ofString) = false)
        "parameter field set mismatch"
      let name ← modeText (field members "mode")
      let exponent ← plainInt (field members "proth_exponent")
      let count ← plainInt (field members "range_count")
      let rangeWidth ← decimal (field members "range_width") "range_width"
      let maximumGap ← decimal (field members "maximum_gap") "maximum_gap"
      let endpointTolerance ← decimal (field members "endpoint_tolerance") "endpoint_tolerance"
      let binaryFirstEven ← decimal (field members "binary_first_even") "binary_first_even"
      let binaryLastEven ← decimal (field members "binary_last_even") "binary_last_even"
      let seedPrime ← decimal (field members "seed_prime") "seed_prime"
      let mode ← knownMode name
      let result : CampaignParameters :=
        ⟨rangeWidth, count, maximumGap, endpointTolerance, binaryFirstEven, binaryLastEven,
          exponent, seedPrime, mode⟩
      result.validate isPrime
      let endpoint ← decimal (field members "endpoint") "endpoint"
      raiseIf (endpoint ≠ result.endpoint) "endpoint does not equal range_count * range_width"
      pure result
  | _ => fail "parameters must be an object"

/-! ## Writing parameters -/

/-- The members that `to_json` writes. -/
def CampaignParameters.record (p : CampaignParameters) : List (String × Json) := [
  ("binary_first_even", .str (Json.printInt p.binaryFirstEven)),
  ("binary_last_even", .str (Json.printInt p.binaryLastEven)),
  ("endpoint", .str (Json.printInt p.endpoint)),
  ("endpoint_tolerance", .str (Json.printInt p.endpointTolerance)),
  ("maximum_gap", .str (Json.printInt p.maximumGap)),
  ("mode", .str (Text.ofString p.mode.name)),
  ("proth_exponent", .int p.prothExponent),
  ("range_count", .int p.rangeCount),
  ("range_width", .str (Json.printInt p.rangeWidth)),
  ("seed_prime", .str (Json.printInt p.seedPrime))]

/-- The numbers that `to_json` spells in decimals. -/
def CampaignParameters.decimals (p : CampaignParameters) : List Int :=
  [p.binaryFirstEven, p.binaryLastEven, p.endpoint, p.endpointTolerance, p.maximumGap, p.rangeWidth,
    p.seedPrime]

theorem toJson_ok {isPrime : Int → Bool} {p : CampaignParameters} {json : Json} :
    p.toJson isPrime = .ok json ↔
      p.validate isPrime = .ok () ∧ (∀ n ∈ p.decimals, n.natAbs < 10 ^ Py.maxStrDigits)
        ∧ Json.object p.record = json := by
  unfold CampaignParameters.toJson CampaignParameters.decimals CampaignParameters.record
  simp only [bind_ok, decimalText_ok, pure_ok, List.forall_mem_cons]
  constructor
  · rintro ⟨_, hvalid, _, ⟨h₁, rfl⟩, _, ⟨h₂, rfl⟩, _, ⟨h₃, rfl⟩, _, ⟨h₄, rfl⟩, _, ⟨h₅, rfl⟩, _,
      ⟨h₆, rfl⟩, _, ⟨h₇, rfl⟩, hjson⟩
    exact ⟨hvalid, ⟨h₁, h₂, h₃, h₄, h₅, h₆, h₇, fun _ h => absurd h (by simp)⟩, hjson⟩
  · rintro ⟨hvalid, ⟨h₁, h₂, h₃, h₄, h₅, h₆, h₇, -⟩, hjson⟩
    exact ⟨(), hvalid, _, ⟨h₁, rfl⟩, _, ⟨h₂, rfl⟩, _, ⟨h₃, rfl⟩, _, ⟨h₄, rfl⟩, _, ⟨h₅, rfl⟩, _,
      ⟨h₆, rfl⟩, _, ⟨h₇, rfl⟩, hjson⟩

theorem positive_of_validate {isPrime : Int → Bool} {p : CampaignParameters} {u : Unit}
    (h : p.validate isPrime = .ok u) :
    ∀ n ∈ [p.rangeWidth, p.rangeCount, p.maximumGap, p.endpointTolerance, p.binaryFirstEven,
      p.binaryLastEven, p.prothExponent, p.seedPrime], 0 < n := by
  obtain ⟨_, hpositive, -⟩ := bind_ok.mp h
  intro n hn
  by_contra hle
  exact raiseIf_ok.mp hpositive ⟨n, hn, not_lt.mp hle⟩

/-! ## The round trip -/

theorem modeText_ok {value : Value} {name : Text} : modeText value = .ok name ↔ value = .str name := by
  cases value <;> simp [modeText, fail]

theorem plainInt_ok {value : Value} {n : Int} : plainInt value = .ok n ↔ value = .int n := by
  cases value <;> simp [plainInt, fail]

theorem knownMode_ok {name : Text} {mode : CampaignMode} :
    knownMode name = .ok mode ↔ name = Text.ofString mode.name := by
  have hnames : ∀ mode : CampaignMode, CampaignMode.ofName (Text.ofString mode.name) = some mode := by
    intro mode
    cases mode <;> decide
  unfold knownMode
  constructor
  · intro h
    cases hmode : CampaignMode.ofName name with
    | none =>
        rw [hmode] at h
        exact absurd h fail_ne_ok
    | some found =>
        rw [hmode] at h
        obtain rfl := Except.ok.inj h
        have hname := List.find?_some hmode
        exact (of_decide_eq_true hname).symm
  · rintro rfl
    rw [hnames]

/-- A positive number is read from the decimals that spell it. -/
theorem decimal_printInt {n : Int} (hn : 0 < n) (hfits : n.natAbs < 10 ^ Py.maxStrDigits)
    (name : String) : decimal (.str (Json.printInt n)) name = .ok n.toNat := by
  obtain ⟨n, rfl⟩ := Int.eq_ofNat_of_zero_le hn.le
  rw [Int.natAbs_natCast] at hfits
  exact decimal_ok.mpr ⟨rfl, hfits⟩

theorem ofJson_record (p : CampaignParameters) : JsonLoads.ofJson (Json.object p.record)
    = .obj (p.record.map fun member => (Text.ofString member.1, JsonLoads.ofJson member.2)) := by
  rw [Json.object, JsonLoads.ofJson, JsonLoads.ofMembers_eq, List.map_map]
  rfl

theorem record_keys (p : CampaignParameters) : p.record.map Prod.fst = parameterKeys := by
  simp only [CampaignParameters.record, parameterKeys, List.map_cons, List.map_nil]

theorem hasKeys_of_perm {members : List (Text × Value)} {record : List (String × Json)}
    (h : members.Perm (record.map fun member => (Text.ofString member.1, JsonLoads.ofJson member.2))) :
    hasKeys members ((record.map Prod.fst).map Text.ofString) = true := by
  rw [hasKeys, Bool.and_eq_true, List.all_eq_true, List.all_eq_true]
  refine ⟨fun m hm => decide_eq_true ?_, fun key hkey => ?_⟩
  · obtain ⟨member, hmember, rfl⟩ := List.mem_map.mp (h.subset hm)
    exact List.mem_map_of_mem (List.mem_map_of_mem hmember)
  · rw [List.map_map] at hkey
    obtain ⟨member, hmember, rfl⟩ := List.mem_map.mp hkey
    exact List.any_eq_true.mpr ⟨_, h.symm.subset (List.mem_map_of_mem hmember), decide_eq_true rfl⟩

/-- What is read is an object that `to_json` writes. -/
theorem record_of_fromJson {isPrime : Int → Bool} {members : List (Text × Value)}
    {p : CampaignParameters} (hnodup : (members.map Prod.fst).Nodup)
    (h : CampaignParameters.fromJson isPrime (.obj members) = .ok p) :
    p.toJson isPrime = .ok (Json.object p.record) ∧ members.Perm
      (p.record.map fun member => (Text.ofString member.1, JsonLoads.ofJson member.2)) := by
  unfold CampaignParameters.fromJson at h
  simp only [bind_ok, raiseIf_ok, Bool.not_eq_false, modeText_ok, plainInt_ok, decimal_ok,
    knownMode_ok, pure_ok, not_not] at h
  obtain ⟨_, hhas, name, hmode, exponent, hexponent, count, hcount, width, ⟨hwidth, hwidthFits⟩, gap,
    ⟨hgap, hgapFits⟩, tolerance, ⟨htolerance, htoleranceFits⟩, firstEven, ⟨hfirst, hfirstFits⟩,
    lastEven, ⟨hlast, hlastFits⟩, seed, ⟨hseed, hseedFits⟩, mode, rfl, _, hvalid, endpoint,
    ⟨hendpoint, hendpointFits⟩, _, hequal, rfl⟩ := h
  have hperm := perm_fields parameterKeys hnodup (by decide) hhas
  refine ⟨toJson_ok.mpr ⟨hvalid, ?_, rfl⟩, ?_⟩
  · simp only [CampaignParameters.decimals, List.forall_mem_cons, ← hequal, Int.natAbs_natCast]
    exact ⟨hfirstFits, hlastFits, hendpointFits, htoleranceFits, hgapFits, hwidthFits, hseedFits,
      fun _ h => absurd h (by simp)⟩
  · refine hperm.trans (List.Perm.of_eq ?_)
    simp only [parameterKeys, CampaignParameters.record, List.map_cons, List.map_nil, hmode, hexponent,
      hcount, hwidth, hgap, htolerance, hfirst, hlast, hseed, hendpoint, ← hequal, JsonLoads.ofJson]
    rfl

/-- What `to_json` writes is read, in any order of the members. -/
theorem fromJson_of_record {isPrime : Int → Bool} {members : List (Text × Value)}
    {p : CampaignParameters} (hnodup : (members.map Prod.fst).Nodup)
    (hjson : p.toJson isPrime = .ok (Json.object p.record))
    (hperm : members.Perm
      (p.record.map fun member => (Text.ofString member.1, JsonLoads.ofJson member.2))) :
    CampaignParameters.fromJson isPrime (.obj members) = .ok p := by
  obtain ⟨hvalid, hfits, -⟩ := toJson_ok.mp hjson
  have hpositive := positive_of_validate hvalid
  have hfields : ∀ member ∈ p.record, field members member.1 = JsonLoads.ofJson member.2 :=
    fun member hmember => field_of_mem hnodup (hperm.symm.subset (List.mem_map_of_mem hmember)) rfl
  have hhas := hasKeys_of_perm hperm
  rw [record_keys] at hhas
  simp only [CampaignParameters.decimals, List.forall_mem_cons] at hfits
  simp only [List.forall_mem_cons] at hpositive
  simp only [CampaignParameters.record, List.forall_mem_cons, JsonLoads.ofJson] at hfields
  obtain ⟨hfirstFits, hlastFits, hendpointFits, htoleranceFits, hgapFits, hwidthFits, hseedFits, -⟩ :=
    hfits
  obtain ⟨hwidth, hcount, hgap, htolerance, hfirst, hlast, -, hseed, -⟩ := hpositive
  obtain ⟨hfirstField, hlastField, hendpointField, htoleranceField, hgapField, hmodeField,
    hexponentField, hcountField, hwidthField, hseedField, -⟩ := hfields
  have hendpoint : 0 < p.endpoint := Int.mul_pos hwidth hcount
  have hself : (⟨p.rangeWidth.toNat, p.rangeCount, p.maximumGap.toNat, p.endpointTolerance.toNat,
      p.binaryFirstEven.toNat, p.binaryLastEven.toNat, p.prothExponent, p.seedPrime.toNat, p.mode⟩ :
        CampaignParameters) = p := by
    rw [Int.toNat_of_nonneg hwidth.le, Int.toNat_of_nonneg hgap.le,
      Int.toNat_of_nonneg htolerance.le, Int.toNat_of_nonneg hfirst.le, Int.toNat_of_nonneg hlast.le,
      Int.toNat_of_nonneg hseed.le]
  show (raiseIf (hasKeys members (parameterKeys.map Text.ofString) = false) _ >>= _) = _
  rw [hmodeField, hexponentField, hcountField, hwidthField, hgapField, htoleranceField, hfirstField,
    hlastField, hseedField, hendpointField, decimal_printInt hwidth hwidthFits,
    decimal_printInt hgap hgapFits, decimal_printInt htolerance htoleranceFits,
    decimal_printInt hfirst hfirstFits, decimal_printInt hlast hlastFits,
    decimal_printInt hseed hseedFits, decimal_printInt hendpoint hendpointFits, hhas]
  refine bind_ok.mpr ⟨(), raiseIf_ok.mpr (by decide), ?_⟩
  refine bind_ok.mpr ⟨_, rfl, bind_ok.mpr ⟨_, rfl, bind_ok.mpr ⟨_, rfl, ?_⟩⟩⟩
  refine bind_ok.mpr ⟨_, rfl, bind_ok.mpr ⟨_, rfl, bind_ok.mpr ⟨_, rfl, bind_ok.mpr ⟨_, rfl,
    bind_ok.mpr ⟨_, rfl, bind_ok.mpr ⟨_, rfl, bind_ok.mpr ⟨p.mode, knownMode_ok.mpr rfl, ?_⟩⟩⟩⟩⟩⟩⟩
  dsimp only
  rw [hself]
  exact bind_ok.mpr ⟨(), hvalid, bind_ok.mpr ⟨_, rfl, bind_ok.mpr ⟨(),
    raiseIf_ok.mpr (not_not.mpr (Int.toNat_of_nonneg hendpoint.le)), rfl⟩⟩⟩

/--
**Parameters have one record.** An object with different keys is read as parameters exactly if
`to_json` writes these parameters and the object has the members it writes, in any order.
-/
theorem parameters_record_exact {isPrime : Int → Bool} {members : List (Text × Value)}
    {p : CampaignParameters} (hnodup : (members.map Prod.fst).Nodup) :
    CampaignParameters.fromJson isPrime (.obj members) = .ok p ↔
      ∃ json written, p.toJson isPrime = .ok json ∧ JsonLoads.ofJson json = .obj written
        ∧ members.Perm written := by
  constructor
  · intro h
    obtain ⟨hjson, hperm⟩ := record_of_fromJson hnodup h
    exact ⟨_, _, hjson, ofJson_record p, hperm⟩
  · rintro ⟨json, written, hjson, hwritten, hperm⟩
    obtain ⟨-, -, rfl⟩ := toJson_ok.mp hjson
    rw [ofJson_record] at hwritten
    obtain rfl := Value.obj.inj hwritten
    exact fromJson_of_record hnodup hjson hperm

theorem parameters_record_exact_small :
    CampaignParameters.fromJson smallSurroundings.isPrime
      (.obj (smallParameters.record.map fun member =>
        (Text.ofString member.1, JsonLoads.ofJson member.2))) = .ok smallParameters := by
  refine (parameters_record_exact (by decide)).mpr ⟨_, _, toJson_ok.mpr ⟨small_validates, ?_, rfl⟩,
    ofJson_record smallParameters, List.Perm.refl _⟩
  intro n hn
  refine small_fits ?_
  revert n
  decide

end AttestedCompute.PrimeLadder

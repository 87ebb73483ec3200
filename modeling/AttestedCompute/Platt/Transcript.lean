import AttestedCompute.Lib.PyText
import AttestedCompute.Platt.UnitReceipt

/-!
# Transcripts of the windowed checker

The runner prints, for every block, a line that states the Turing difference it looks for and
later a line that states what it found. `parseTranscript` accepts a text only if both kinds of
line occur once for each block and agree with the fixed grid.

Text is cut into lines in two ways. The scheduler cuts at line feeds only; `parseTranscript` cuts
at every line boundary of `str.splitlines`, so it can see lines inside a line of the scheduler.
-/

namespace AttestedCompute.Platt

open Fallible
open Py (Str)

/-- `if condition: raise PlattWindowedCampaignError(message)` -/
def campaignIf (condition : Prop) [Decidable condition] (message : String) : Checked Unit :=
  refuseIf condition (.campaign message)

@[simp] theorem campaignIf_ok {condition : Prop} [Decidable condition] {message : String}
    {u : Unit} : campaignIf condition message = .ok u ↔ ¬ condition := refuseIf_ok

/-! ## Matching a line -/

/-- `[0-9]` -/
def isDigit (c : Char) : Bool := '0' ≤ c && c ≤ '9'

/-- `([0-9]+)` before something that is no digit: the digits and what follows. -/
def matchDigits (s : Str) : Option (Str × Str) :=
  let digits := s.takeWhile isDigit
  if digits = [] then none else some (digits, s.dropWhile isDigit)

/-- What follows a literal. -/
def matchLiteral (literal : String) (s : Str) : Option Str :=
  if literal.toList.isPrefixOf s then some (s.drop literal.toList.length) else none

/-- The groups of `LOOKING_RE.fullmatch(line)`. -/
def matchLooking (line : Str) : Option (Str × Str × Str) := do
  let rest ← matchLiteral "looking for " line
  let (maximum, rest) ← matchDigits rest
  let rest ← matchLiteral "-" rest
  let (minimum, rest) ← matchDigits rest
  let rest ← matchLiteral "=" rest
  let (difference, rest) ← matchDigits rest
  let rest ← matchLiteral " zeros" rest
  if rest = [] then some (maximum, minimum, difference) else none

/-- The groups of `SUCCESS_RE.fullmatch(line)`. -/
def matchSuccess (line : Str) : Option (Str × Str × Str) := do
  let rest ← matchLiteral "All " line
  let (found, rest) ← matchDigits rest
  let rest ← matchLiteral " zeros found in region " rest
  let (lower, rest) ← matchDigits rest
  let rest ← matchLiteral ".000000 to " rest
  let (upper, rest) ← matchDigits rest
  let rest ← matchLiteral ".000000 using stat points." rest
  if rest = [] then some (found, lower, upper) else none

/-- `int` of a run of ASCII digits. -/
def toInt (digits : Str) : Checked Nat :=
  if Py.maxStrDigits < digits.length then .error .value
  else .ok (Positional.value 10 (digits.map fun c => c.toNat - '0'.toNat))

/-- `tuple(int(value) for value in match.groups())` -/
def toInts (groups : Str × Str × Str) : Checked (Nat × Nat × Nat) := do
  let x ← toInt groups.1
  let y ← toInt groups.2.1
  let z ← toInt groups.2.2
  pure (x, y, z)

/-! ## Failure tokens -/

def FORBIDDEN_OUTPUT : List String := [
  "unknown", "missed", "problem", "failed", "exiting", "did not bracket", "outside limits",
  "must be"]

/-- The lower case of a character, as far as it can hold ASCII: the lower-case forms of the other
characters have no ASCII character in them, and those characters stay as they are. -/
def lowerChar (c : Char) : Str :=
  if 'A' ≤ c ∧ c ≤ 'Z' then [Char.ofNat (c.toNat + 32)]
  else if c.toNat = 0x130 then ['i', Char.ofNat 0x307]
  else if c.toNat = 0x212A then ['k']
  else [c]

/-- `token in text.lower()`, for a token of ASCII characters -/
def containsToken (token : String) (text : Str) : Bool :=
  decide (token.toList <:+: text.flatMap lowerChar)

/-- The first failure token in a text. -/
def failureToken (text : Str) : Option String :=
  FORBIDDEN_OUTPUT.find? fun token => containsToken token text

/-- The message that quotes a failure token. -/
def failureMessage (text : Str) : String :=
  "runner transcript contains failure token '" ++ (failureToken text).getD "" ++ "'"

/-! ## Transcripts -/

/-- The result of `parse_transcript`. -/
structure Parsed where
  records : List Record
  firstCount : Nat
  lastCount : Nat
  totalZeroCount : Int
  stdoutSha256 : Text
  deriving DecidableEq

/-- `hashlib.sha256(text.encode("utf-8")).hexdigest()` -/
def textSha256 (text : Str) : Text := sha256Hex (text.flatMap String.utf8EncodeChar)

/-- The loop over the pairs of proof lines, from one block on. -/
def readRecords (block : Int) (previousMaximum : Option Nat) :
    List ((Nat × Nat × Nat) × (Nat × Nat × Nat)) → Checked (List Record)
  | [] => pure []
  | ((maximum, minimum, difference), (found, lower, upper)) :: rest => do
      let expectedLower := SOURCE_LOWER + block * STEP
      let expectedUpper := expectedLower + STEP
      campaignIf (((lower : Int), (upper : Int)) ≠ (expectedLower, expectedUpper))
        "transcript interval is not the fixed grid interval"
      campaignIf (maximum < minimum ∨ (maximum : Int) - minimum ≠ difference ∨ found ≠ difference)
        "Turing difference and isolated count disagree"
      campaignIf (∃ previous ∈ previousMaximum, minimum ≠ previous)
        "within-shard Turing counts are not contiguous"
      let records ← readRecords (block + 1) (some maximum) rest
      pure (⟨block, lower, upper, minimum, maximum, found⟩ :: records)

/-- `parse_transcript` -/
def parseTranscript (output : Str) (firstBlock blockCount : Int) : Checked Parsed := do
  campaignIf (output = [] ∨ Char.ofNat 0 ∈ output) "runner transcript is empty or contains NUL"
  campaignIf (failureToken output ≠ none) (failureMessage output)
  let lines := Py.splitlines output
  -- a numeral that is too long raises the same exception in both kinds of line
  let looking ← (lines.filterMap matchLooking).mapM toInts
  let success ← (lines.filterMap matchSuccess).mapM toInts
  campaignIf ((looking.length : Int) ≠ blockCount ∨ (success.length : Int) ≠ blockCount)
    "transcript has the wrong number of proof records"
  let records ← readRecords firstBlock none (looking.zip success)
  match records.head?, records.getLast? with
  | some first, some last =>
      pure
        { records := records
          firstCount := first.countLower
          lastCount := last.countUpper
          totalZeroCount := totalZeroCount records
          stdoutSha256 := textSha256 output }
  | _, _ => .error .index

/-! ## The committed prefix -/

def isSuccess (line : Str) : Bool := (matchSuccess line).isSome

/-- `"".join(f"{line}\n" for line in lines)` -/
def joinLines (lines : List Str) : Str := lines.flatMap fun line => line ++ ['\n']

/-- The loop of `_parse_committed_prefix`: the last boundary and the number of completed blocks. -/
def scanBoundary : Nat → Nat × Nat → List Str → Nat × Nat
  | _, acc, [] => acc
  | index, (boundary, completed), line :: rest =>
      scanBoundary (index + 1)
        (if isSuccess line then (index + 1, completed + 1) else (boundary, completed)) rest

/-- `_parse_committed_prefix` -/
def parseCommittedPrefix (lines : List Str) (firstBlock : Int) :
    Checked (List Record × Str × Nat) := do
  let (boundary, completed) := scanBoundary 0 (0, 0) lines
  if completed = 0 then
    pure ([], [], 0)
  else
    let text := joinLines (lines.take boundary)
    let parsed ← parseTranscript text firstBlock completed
    pure (parsed.records, text, boundary)

/-! ## Lines of a joined text -/

/-- A character that does not open a carriage return and line feed. -/
theorem splitlinesAux_cons {line rest : Str} {c : Char} (h : c = '\r' → rest.head? ≠ some '\n') :
    Py.splitlinesAux line (c :: rest) =
      if Py.isLineBreak c then line.reverse :: Py.splitlinesAux [] rest
      else Py.splitlinesAux (c :: line) rest := by
  rw [Py.splitlinesAux.eq_3]
  rintro rest' rfl rfl
  exact h rfl rfl

theorem splitlinesAux_append (rest : Str) : ∀ line s : Str,
    Py.splitlinesAux line (s ++ '\n' :: rest) =
      Py.splitlinesAux line (s ++ ['\n']) ++ Py.splitlines rest
  | line, [] => by
      have hfeed : ∀ tail : Str, '\n' = '\r' → tail.head? ≠ some '\n' :=
        fun _ h => absurd h (by decide)
      rw [List.nil_append, List.nil_append, splitlinesAux_cons (hfeed _),
        splitlinesAux_cons (hfeed _)]
      rfl
  | line, ['\r'] => rfl
  | line, '\r' :: '\n' :: s => congrArg (line.reverse :: ·) (splitlinesAux_append rest [] s)
  | line, c :: d :: s => by
      by_cases hpair : c = '\r' ∧ d = '\n'
      · obtain ⟨rfl, rfl⟩ := hpair
        exact congrArg (line.reverse :: ·) (splitlinesAux_append rest [] s)
      · have hc : ∀ tail : Str, c = '\r' → (d :: tail).head? ≠ some '\n' :=
          fun _ hc hd => hpair ⟨hc, Option.some.inj hd⟩
        have hbreak := splitlinesAux_append rest [] (d :: s)
        have hgo := splitlinesAux_append rest (c :: line) (d :: s)
        rw [List.cons_append, List.cons_append] at hbreak hgo
        rw [List.cons_append, List.cons_append, List.cons_append, List.cons_append,
          splitlinesAux_cons (hc _), splitlinesAux_cons (hc _), hbreak, hgo]
        split <;> rfl
  | line, [c] => by
      by_cases hc : c = '\r'
      · rw [hc]
        rfl
      · have hbreak := splitlinesAux_append rest [] []
        have hgo := splitlinesAux_append rest (c :: line) []
        rw [List.nil_append, List.nil_append] at hbreak hgo
        rw [List.singleton_append, List.singleton_append, splitlinesAux_cons (fun h => absurd h hc),
          splitlinesAux_cons (fun h => absurd h hc), hbreak, hgo]
        split <;> rfl

/-- The lines of a joined text are those of its lines. -/
theorem splitlines_joinLines (lines : List Str) :
    Py.splitlines (joinLines lines) = lines.flatMap fun line => Py.splitlines (line ++ ['\n']) := by
  induction lines with
  | nil => rfl
  | cons line rest ih =>
      rw [List.flatMap_cons, ← ih]
      have happend := splitlinesAux_append (joinLines rest) [] line
      rw [joinLines, List.flatMap_cons, List.append_assoc, List.singleton_append]
      exact happend

/-- A line without line boundaries is one line. -/
theorem splitlines_line {line : Str} (h : ∀ c ∈ line, Py.isLineBreak c = false) :
    Py.splitlines (line ++ ['\n']) = [line] := by
  suffices hgo : ∀ before, Py.splitlinesAux before (line ++ ['\n']) = [before.reverse ++ line] from
    hgo []
  induction line with
  | nil =>
      intro before
      rw [List.nil_append, splitlinesAux_cons (fun h => absurd h (by decide)), List.append_nil]
      rfl
  | cons c rest ih =>
      intro before
      have hc := h c List.mem_cons_self
      have hne : c ≠ '\r' := fun heq => absurd hc (by rw [heq]; decide)
      rw [List.cons_append, splitlinesAux_cons (fun heq => absurd heq hne), hc, if_neg (by decide),
        ih (fun d hd => h d (List.mem_cons_of_mem c hd)), List.reverse_cons, List.append_assoc]
      rfl

/-! ## Matched lines have no line boundaries -/

theorem matchLiteral_some {literal : String} {s rest : Str} (h : matchLiteral literal s = some rest) :
    s = literal.toList ++ rest := by
  unfold matchLiteral at h
  split at h
  · rename_i hprefix
    obtain ⟨tail, rfl⟩ := List.isPrefixOf_iff_prefix.mp hprefix
    rw [List.drop_left, Option.some.injEq] at h
    rw [h]
  · cases h

theorem matchDigits_some {s digits rest : Str} (h : matchDigits s = some (digits, rest)) :
    s = digits ++ rest ∧ ∀ c ∈ digits, isDigit c = true := by
  unfold matchDigits at h
  dsimp only at h
  split at h
  · cases h
  · rw [Option.some.injEq, Prod.mk.injEq] at h
    obtain ⟨rfl, rfl⟩ := h
    exact ⟨(List.takeWhile_append_dropWhile).symm, fun c hc => List.mem_takeWhile_imp hc⟩

theorem isLineBreak_digit {c : Char} (h : isDigit c = true) : Py.isLineBreak c = false := by
  have hrange : 48 ≤ c.toNat ∧ c.toNat ≤ 57 := by
    simp only [isDigit, Bool.and_eq_true, decide_eq_true_eq] at h
    exact h
  simp only [Py.isLineBreak, Bool.or_eq_false_iff, Bool.and_eq_false_iff, decide_eq_false_iff_not,
    beq_eq_false_iff_ne]
  omega

/-- No line boundaries. -/
def Unbroken (s : Str) : Prop := ∀ c ∈ s, Py.isLineBreak c = false

theorem Unbroken.append {s t : Str} (hs : Unbroken s) (ht : Unbroken t) : Unbroken (s ++ t) :=
  List.forall_mem_append.mpr ⟨hs, ht⟩

theorem unbroken_literal {literal : String} {s rest : Str} (h : matchLiteral literal s = some rest)
    (hliteral : literal.toList.all (fun c => !Py.isLineBreak c) = true) (hrest : Unbroken rest) :
    Unbroken s := by
  rw [matchLiteral_some h]
  refine Unbroken.append (fun c hc => ?_) hrest
  have hc' := List.all_eq_true.mp hliteral c hc
  simpa using hc'

theorem unbroken_digits {s digits rest : Str} (h : matchDigits s = some (digits, rest))
    (hrest : Unbroken rest) : Unbroken s := by
  obtain ⟨rfl, hdigits⟩ := matchDigits_some h
  exact Unbroken.append (fun c hc => isLineBreak_digit (hdigits c hc)) hrest

/-- The closing test that nothing is left. -/
theorem unbroken_end {α : Type} {rest : Str} {x y : α}
    (h : (if rest = [] then some x else none) = some y) : Unbroken rest := by
  split at h
  · rename_i hrest
    rw [hrest]
    exact List.forall_mem_nil _
  · cases h

theorem matchLooking_unbroken {line : Str} {groups : Str × Str × Str}
    (h : matchLooking line = some groups) : Unbroken line := by
  simp only [matchLooking, Option.bind_eq_bind, Option.bind_eq_some_iff, Prod.exists] at h
  obtain ⟨_, h1, _, _, h2, _, h3, _, _, h4, _, h5, _, _, h6, rest, h7, hend⟩ := h
  have hnil := unbroken_end hend
  exact unbroken_literal h1 (by decide) (unbroken_digits h2 (unbroken_literal h3 (by decide)
    (unbroken_digits h4 (unbroken_literal h5 (by decide) (unbroken_digits h6
      (unbroken_literal h7 (by decide) hnil))))))

theorem matchSuccess_unbroken {line : Str} {groups : Str × Str × Str}
    (h : matchSuccess line = some groups) : Unbroken line := by
  simp only [matchSuccess, Option.bind_eq_bind, Option.bind_eq_some_iff, Prod.exists] at h
  obtain ⟨_, h1, _, _, h2, _, h3, _, _, h4, _, h5, _, _, h6, rest, h7, hend⟩ := h
  have hnil := unbroken_end hend
  exact unbroken_literal h1 (by decide) (unbroken_digits h2 (unbroken_literal h3 (by decide)
    (unbroken_digits h4 (unbroken_literal h5 (by decide) (unbroken_digits h6
      (unbroken_literal h7 (by decide) hnil))))))

end AttestedCompute.Platt

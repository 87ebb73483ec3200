import AttestedCompute.Lib.PyText
import AttestedCompute.Lib.Sha256
import AttestedCompute.Lib.Fallible

/-!
# The segment-campaign checker

`tg_seg_campaign_check.py` reads a campaign manifest and reports every problem it
finds. This is that routine over the manifest text, with the artifact directory as a
parameter: which regular files it holds and what their bytes are.

A run ends in a report, or stops early: the text is not a manifest, a row lacks a
field, a field is not an integer. Only an empty report lets a campaign run.
-/

namespace AttestedCompute.Campaign

open Fallible

/-- Why a run stops without a report. -/
inductive Stop
  | notManifest
  | malformedRow (line : Py.Str)
  | indexError
  | keyError (key : String)
  | valueError (text : Py.Str)
  deriving DecidableEq, Repr

/-- A Python dictionary of strings, the most recent assignment first. -/
abbrev Dict := List (Py.Str × Py.Str)

namespace Dict

def get (d : Dict) (key : String) : Except Stop Py.Str :=
  match d.lookup key.toList with
  | some value => .ok value
  | none => .error (.keyError key)

/-- `int(d[key])`. -/
def int (d : Dict) (key : String) : Except Stop Int := do
  let text ← d.get key
  match Py.int 10 text with
  | some n => .ok n
  | none => .error (.valueError text)

end Dict

/-! ## Reading the manifest -/

def KIND : String := "sparkinterval.leancompcert-seg-campaign-manifest.v1"

def REQUIRED_HEADER : List String := [
  "name", "producer", "program", "emitter", "reduced-family", "claim",
  "cover-lo", "range-lo", "range-hi", "windows", "initial-seed",
  "compcert-version", "compcert-target", "link", "start-stub-sha256",
  "success", "output"]

structure ParseState where
  header : Dict
  rows : List Dict
  inside : Bool

/-- The fields of a window row after its index. -/
def rowOf (index : Py.Str) (fields : List Py.Str) : Dict :=
  fields.foldl (fun row field => Py.partition '=' field :: row) [("index".toList, index)]

def parseLine (st : ParseState) (line : Py.Str) : Except Stop ParseState :=
  if line = "windows-begin".toList then .ok { st with inside := true }
  else if line = "windows-end".toList then .ok { st with inside := false }
  else if st.inside then
    match Py.split line with
    | [] => .error (.malformedRow line)
    | mark :: fields =>
        if mark ≠ ['w'] then .error (.malformedRow line)
        else
          match fields with
          | [] => .error .indexError
          | index :: fields => .ok { st with rows := st.rows ++ [rowOf index fields] }
  else if '=' ∈ line then .ok { st with header := Py.partition '=' line :: st.header }
  else .ok st

def parse (text : Py.Str) : Except Stop (Dict × List Dict) :=
  match Py.splitlines text with
  | [] => .error .notManifest
  | first :: lines =>
      if first ≠ KIND.toList then .error .notManifest
      else do
        let st ← lines.foldlM parseLine { header := [], rows := [], inside := false }
        pure (st.header, st.rows)

/-! ## Checking it -/

/-- One line of the report. -/
inductive Problem
  | missingHeader (key : String)
  | target (found : Py.Str)
  | windowCount (stated : Py.Str) (listed : Nat)
  | noWindows
  | rangeBelowCover
  | indexOutOfOrder (window : Nat)
  | gapOrOverlap (window : Nat) (lo : Py.Str) (expected : Int)
  | chainBreak (window : Nat) (seed : Py.Str) (expected : Int)
  | spanMisses (window : Nat) (span : Int) (hi : Py.Str)
  | primerInRange (window : Nat) (hi : Py.Str) (claimLo : Int)
  | violations (window : Nat) (expectViol : Py.Str)
  | coverStops (last hi : Int)
  | missingArtifact (window : Nat) (name : String)
  | artifactDigest (window : Nat) (actual stated : Py.Str)
  | artifactSize (window : Nat)
  deriving DecidableEq, Repr

def tag (window : Nat) : String := "window " ++ toString window

def Problem.message : Problem → String
  | .missingHeader key => "header is missing " ++ key
  | .target found =>
      "compcert-target is " ++ String.ofList found ++ ", but Intel TDX is x86_64 only"
  | .windowCount stated listed =>
      "header says " ++ String.ofList stated ++ " windows, " ++ toString listed ++ " listed"
  | .noWindows => "manifest lists no windows"
  | .rangeBelowCover => "range-lo is below cover-lo"
  | .indexOutOfOrder i => tag i ++ ": index out of order"
  | .gapOrOverlap i lo expected =>
      tag i ++ ": gap or overlap -- starts at " ++ String.ofList lo ++ ", the cover needs it to start at "
        ++ toString expected
  | .chainBreak i seed expected =>
      tag i ++ ": chain break -- seed " ++ String.ofList seed ++ " is not the previous window's carry "
        ++ toString expected
  | .spanMisses i span hi =>
      tag i ++ ": segLen*segCount covers " ++ toString span
        ++ " integers, which does not land on hi=" ++ String.ofList hi
        ++ "; the window would test past the point its threshold was computed for"
  | .primerInRange i hi claimLo =>
      tag i ++ ": marked primer but reaches " ++ String.ofList hi ++ ", inside the claimed range starting at "
        ++ toString claimLo
  | .violations i expectViol =>
      tag i ++ ": inside the claimed range but expects " ++ String.ofList expectViol ++ " threshold violations"
  | .coverStops last hi => "the cover stops at " ++ toString last ++ ", not at " ++ toString hi
  | .missingArtifact i name => tag i ++ ": missing artifact " ++ name
  | .artifactDigest i actual stated =>
      tag i ++ ": artifact digest " ++ String.ofList actual ++ " is not the manifest's "
        ++ String.ofList stated
  | .artifactSize i => tag i ++ ": artifact size disagrees"

/-- Report `p` when `bad` holds. -/
def reportIf (bad : Prop) [Decidable bad] (p : Problem) : List Problem := if bad then [p] else []

/-- The verdict rules of one window: a primer ends below the claimed range, any other
window expects no violations. Only the other windows have their `expectViol` read. -/
def checkVerdict (claimLo : Int) (i : Nat) (row : Dict) (hi primer : Int) :
    Except Stop (List Problem) := do
  if primer ≠ 0 then
    let hiText ← row.get "hi"
    pure (reportIf (hi ≥ claimLo) (.primerInRange i hiText claimLo))
  else
    let expectViol ← row.int "expectViol"
    let violText ← row.get "expectViol"
    pure (reportIf (expectViol ≠ 0) (.violations i violText))

/-- One turn of the window loop: the problems of row `i`, and where the next row must
start and with which seed. -/
def checkRow (claimLo : Int) (i : Nat) (row : Dict) (expectLo expectSeed : Int) :
    Except Stop (List Problem × Int × Int) := do
  let index ← row.int "index"
  let lo ← row.int "lo"
  let loText ← row.get "lo"
  let seed ← row.int "seed"
  let seedText ← row.get "seed"
  let segLen ← row.int "segLen"
  let segCount ← row.int "segCount"
  let span := segLen * segCount
  let hi ← row.int "hi"
  let hiText ← row.get "hi"
  let primer ← row.int "primer"
  let verdict ← checkVerdict claimLo i row hi primer
  let carry ← row.int "carry"
  pure (reportIf (index ≠ i) (.indexOutOfOrder i)
    ++ reportIf (lo ≠ expectLo) (.gapOrOverlap i loText expectLo)
    ++ reportIf (seed ≠ expectSeed) (.chainBreak i seedText expectSeed)
    ++ reportIf (lo + span - 1 ≠ hi) (.spanMisses i span hiText)
    ++ verdict, hi + 1, carry)

/-- The window loop from row `i` on, and where the cover stops. -/
def checkRows (claimLo : Int) : Nat → List Dict → Int → Int → Except Stop (List Problem × Int)
  | _, [], expectLo, _ => .ok ([], expectLo)
  | i, row :: rows, expectLo, expectSeed => do
      let (problems, nextLo, nextSeed) ← checkRow claimLo i row expectLo expectSeed
      let (rest, stop) ← checkRows claimLo (i + 1) rows nextLo nextSeed
      pure (problems ++ rest, stop)

/-- The regular files of the campaign's `bin` directory, by name. -/
abbrev Artifacts := String → Option Bytes

/-- `f"w{i:05d}"`. -/
def artifactName (i : Nat) : String :=
  let digits := toString i
  "w" ++ String.ofList (List.replicate (5 - digits.length) '0') ++ digits

def checkArtifact (artifacts : Artifacts) (i : Nat) (row : Dict) : Except Stop (List Problem) :=
  match artifacts (artifactName i) with
  | none => .ok [.missingArtifact i (artifactName i)]
  | some binary => do
      let actual := (Sha256.digest binary).hexChars
      let stated ← row.get "binSha256"
      let size ← row.int "binBytes"
      pure (reportIf (actual ≠ stated) (.artifactDigest i actual stated)
        ++ reportIf ((binary.length : Int) ≠ size) (.artifactSize i))

def checkArtifacts (artifacts : Artifacts) : Nat → List Dict → Except Stop (List Problem)
  | _, [] => .ok []
  | i, row :: rows => do
      let problems ← checkArtifact artifacts i row
      let rest ← checkArtifacts artifacts (i + 1) rows
      pure (problems ++ rest)

def check (text : Py.Str) (artifacts : Artifacts) :
    Except Stop (Dict × List Dict × List Problem) := do
  let (header, rows) ← parse text
  let missing := (REQUIRED_HEADER.filter fun key => (header.lookup key.toList).isNone).map
    Problem.missingHeader
  if missing ≠ [] then pure (header, rows, missing)
  else
    let target ← header.get "compcert-target"
    let targetProblem := reportIf (target ≠ "x86_64-linux".toList) (.target target)
    let windows ← header.int "windows"
    let windowsText ← header.get "windows"
    let countProblem := reportIf (windows ≠ rows.length) (.windowCount windowsText rows.length)
    if rows = [] then
      pure (header, rows, targetProblem ++ countProblem ++ [.noWindows])
    else
      let coverLo ← header.int "cover-lo"
      let claimLo ← header.int "range-lo"
      let hi ← header.int "range-hi"
      let belowProblem := reportIf (claimLo < coverLo) .rangeBelowCover
      let initialSeed ← header.int "initial-seed"
      let (rowProblems, expectLo) ← checkRows claimLo 0 rows coverLo initialSeed
      let stopProblem := reportIf (expectLo ≠ hi + 1) (.coverStops (expectLo - 1) hi)
      let artifactProblems ← checkArtifacts artifacts 0 rows
      pure (header, rows, targetProblem ++ countProblem ++ belowProblem ++ rowProblems
        ++ stopProblem ++ artifactProblems)

end AttestedCompute.Campaign

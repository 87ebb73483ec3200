import AttestedCompute.Lib.MountainRange
import AttestedCompute.Lib.PackedStruct
import AttestedCompute.Lib.Fallible
import AttestedCompute.Receipt.Sha256Eval

/-!
# The commitment to an event stream

`_event_leaf`, `_event_node`, `_append_event_peak` and `_event_mmr_root` of
`tg_verifier/dirichlet_stream_zero_consumer.py`, and the writer that calls them once
for every event with its ordinal. The list of peaks is a Merkle mountain range over the
events, and the root hashes the number of events with all peaks and their heights.
-/

namespace AttestedCompute.Dirichlet.EventMmr

open Fallible (bind_ok pure_ok)
open PackedStruct (ofNatLE length_ofNatLE leValue_ofNatLE)
open MountainRange (Covers carry rootOf blockMessages)

/-- `OverflowError: int too big to convert` -/
inductive OverflowError where
  | intTooBig
  deriving DecidableEq

abbrev Checked := Except OverflowError

/-- `n.to_bytes(width, "little")` -/
def toBytes (width n : Nat) : Checked Bytes :=
  if n < 256 ^ width then .ok (ofNatLE width n) else .error .intTooBig

def domain (text : String) : Bytes := text.toList.map (fun c => UInt8.ofNat c.toNat) ++ [0]

def EVENT_LEAF_DOMAIN : Bytes := domain "sparkinterval/tg/dirichlet-event/leaf/v1"

def EVENT_NODE_DOMAIN : Bytes := domain "sparkinterval/tg/dirichlet-event/node/v1"

def EVENT_ROOT_DOMAIN : Bytes := domain "sparkinterval/tg/dirichlet-event/root/v1"

/-- `_event_leaf` -/
def eventLeaf (ordinal : Nat) (raw : Bytes) : Checked Bytes := do
  let ordinal ← toBytes 8 ordinal
  let length ← toBytes 8 raw.length
  pure (Sha256.digest (EVENT_LEAF_DOMAIN ++ ordinal ++ length ++ raw))

/-- `_event_node` -/
def eventNode (height : Nat) (left right : Bytes) : Checked Bytes := do
  let height ← toBytes 4 height
  pure (Sha256.digest (EVENT_NODE_DOMAIN ++ height ++ left ++ right))

/-- The loop of `_append_event_peak` from one height on. -/
def carryPeaks : Nat → Bytes → List (Option Bytes) → Checked (List (Option Bytes))
  | _, node, [] => .ok [some node]
  | _, node, none :: rest => .ok (some node :: rest)
  | height, node, some left :: rest => do
      let node ← eventNode height left node
      let rest ← carryPeaks (height + 1) node rest
      pure (none :: rest)

/-- `_append_event_peak` -/
def appendEventPeak (peaks : List (Option Bytes)) (leaf : Bytes) : Checked (List (Option Bytes)) :=
  carryPeaks 0 leaf peaks

/-- `(height, peak)` for the heights of `enumerate(peaks)` that have a peak. -/
def presentPeaks : Nat → List (Option Bytes) → List (Nat × Bytes)
  | _, [] => []
  | height, none :: rest => presentPeaks (height + 1) rest
  | height, some peak :: rest => (height, peak) :: presentPeaks (height + 1) rest

/-- The bytes of the present peaks. -/
def peakBytes : List (Nat × Bytes) → Checked Bytes
  | [] => .ok []
  | (height, peak) :: rest => do
      let height ← toBytes 4 height
      let rest ← peakBytes rest
      pure (height ++ peak ++ rest)

/-- What `_event_mmr_root` hashes. -/
def rootMessage (eventCount : Nat) (peaks : List (Option Bytes)) : Checked Bytes := do
  let count ← toBytes 8 eventCount
  let present := presentPeaks 0 peaks
  let number ← toBytes 4 present.length
  let bytes ← peakBytes present
  pure (EVENT_ROOT_DOMAIN ++ count ++ number ++ bytes)

/-- `_event_mmr_root` -/
def eventMmrRoot (eventCount : Nat) (peaks : List (Option Bytes)) : Checked String := do
  let message ← rootMessage eventCount peaks
  pure (Sha256.hexdigest message)

/-- The writer on the events from one ordinal on. -/
def appendFrom : Nat → List (Option Bytes) → List Bytes → Checked (List (Option Bytes))
  | _, peaks, [] => .ok peaks
  | ordinal, peaks, raw :: rest => do
      let leaf ← eventLeaf ordinal raw
      let peaks ← appendEventPeak peaks leaf
      appendFrom (ordinal + 1) peaks rest

/-- The peaks after a sequence of events. -/
def appendEvents (events : List Bytes) : Checked (List (Option Bytes)) := appendFrom 0 [] events

/-! ## The messages -/

theorem toBytes_ok {width n : Nat} {bytes : Bytes} :
    toBytes width n = .ok bytes ↔ n < 256 ^ width ∧ ofNatLE width n = bytes := by
  unfold toBytes
  split
  · rename_i h; simp [h]
  · rename_i h; simp [h]

theorem ofNatLE_inj {width n m : Nat} (hn : n < 256 ^ width) (hm : m < 256 ^ width)
    (h : ofNatLE width n = ofNatLE width m) : n = m := by
  rw [← leValue_ofNatLE hn, ← leValue_ofNatLE hm, h]

/-- What the leaf of an event hashes. -/
def leafMsg (events : List Bytes) (ordinal : Nat) : Bytes :=
  let raw := events.getD ordinal []
  EVENT_LEAF_DOMAIN ++ ofNatLE 8 ordinal ++ ofNatLE 8 raw.length ++ raw

/-- What a node over two digests hashes. -/
def nodeMsg (height : Nat) (left right : Bytes) : Bytes :=
  EVENT_NODE_DOMAIN ++ ofNatLE 4 height ++ left ++ right

/-- The hash tree root over the `2 ^ h` events from `start` on. -/
def treeRoot (events : List Bytes) : Nat → Nat → Bytes :=
  rootOf Sha256.digest nodeMsg (leafMsg events)

/-- The first event of the block of a binary digit of the count. -/
def blockStart (count height : Nat) : Nat := count / 2 ^ (height + 1) * 2 ^ (height + 1)

/-- The peaks cover the first `count` events. -/
def CoversEvents (events : List Bytes) (height count : Nat) (peaks : List (Option Bytes)) : Prop :=
  Covers (fun h x y => Sha256.digest (nodeMsg h x y)) (fun i => Sha256.digest (leafMsg events i))
    height count peaks

theorem nodeMsg_inj {h : Nat} {v w x y : Bytes}
    (heq : nodeMsg h (Sha256.digest v) (Sha256.digest w)
      = nodeMsg h (Sha256.digest x) (Sha256.digest y)) :
    Sha256.digest v = Sha256.digest x ∧ Sha256.digest w = Sha256.digest y := by
  unfold nodeMsg at heq
  rw [List.append_assoc, List.append_assoc (_ ++ _)] at heq
  exact List.append_inj (List.append_cancel_left heq) (by simp)

theorem leafMsg_inj {xs ys : List Bytes} {i : Nat} (h : leafMsg xs i = leafMsg ys i) :
    xs.getD i [] = ys.getD i [] := by
  unfold leafMsg at h
  dsimp only at h
  exact (List.append_inj h (by simp)).2

/-! ## What the loops compute -/

theorem eventLeaf_ok {ordinal : Nat} {raw leaf : Bytes} :
    eventLeaf ordinal raw = .ok leaf ↔ ordinal < 256 ^ 8 ∧ raw.length < 256 ^ 8
      ∧ Sha256.digest (EVENT_LEAF_DOMAIN ++ ofNatLE 8 ordinal ++ ofNatLE 8 raw.length ++ raw)
        = leaf := by
  unfold eventLeaf
  simp only [bind_ok, toBytes_ok, pure_ok]
  constructor
  · rintro ⟨_, ⟨ho, rfl⟩, _, ⟨hl, rfl⟩, h⟩
    exact ⟨ho, hl, h⟩
  · rintro ⟨ho, hl, h⟩
    exact ⟨_, ⟨ho, rfl⟩, _, ⟨hl, rfl⟩, h⟩

/-- **The loop over the peaks is a carry.** -/
theorem carryPeaks_ok {height : Nat} {node : Bytes} {peaks peaks' : List (Option Bytes)}
    (h : carryPeaks height node peaks = .ok peaks') :
    peaks' = carry (fun h x y => Sha256.digest (nodeMsg h x y)) height node peaks := by
  induction peaks generalizing height node peaks' with
  | nil => exact (Except.ok.inj h).symm
  | cons peak rest ih =>
      cases peak with
      | none => exact (Except.ok.inj h).symm
      | some left =>
          unfold carryPeaks eventNode at h
          simp only [bind_ok, toBytes_ok, pure_ok] at h
          obtain ⟨_, ⟨_, ⟨-, rfl⟩, rfl⟩, rest', hrest, rfl⟩ := h
          rw [ih hrest]
          rfl

theorem exists_carryPeaks {height : Nat} (node : Bytes) {peaks : List (Option Bytes)}
    (h : height + peaks.length ≤ 256 ^ 4) : ∃ peaks', carryPeaks height node peaks = .ok peaks' := by
  induction peaks generalizing height node with
  | nil => exact ⟨_, rfl⟩
  | cons peak rest ih =>
      rw [List.length_cons] at h
      cases peak with
      | none => exact ⟨_, rfl⟩
      | some left =>
          obtain ⟨rest', hrest⟩ := @ih (height + 1)
            (Sha256.digest (nodeMsg height left node)) (by omega)
          have hbytes : toBytes 4 height = .ok (ofNatLE 4 height) := toBytes_ok.mpr ⟨by omega, rfl⟩
          refine ⟨none :: rest', ?_⟩
          unfold carryPeaks eventNode
          simp only [bind_ok, pure_ok]
          exact ⟨_, ⟨_, hbytes, rfl⟩, rest', hrest, rfl⟩

/-- **One more event covers one more leaf.** -/
theorem append_covers {events : List Bytes} {ordinal : Nat} {raw leaf : Bytes}
    {peaks peaks' : List (Option Bytes)} (hraw : events.getD ordinal [] = raw)
    (hc : CoversEvents events 0 ordinal peaks) (hleaf : eventLeaf ordinal raw = .ok leaf)
    (happend : appendEventPeak peaks leaf = .ok peaks') :
    CoversEvents events 0 (ordinal + 1) peaks' := by
  obtain ⟨-, -, hdigest⟩ := eventLeaf_ok.mp hleaf
  have hroot : leaf = Sha256.digest (leafMsg events (ordinal * 2 ^ 0)) := by
    unfold leafMsg
    rw [pow_zero, mul_one, hraw]
    exact hdigest.symm
  rw [carryPeaks_ok happend, hroot]
  exact MountainRange.covers_carry hc

theorem getD_of_split {events done rest : List Bytes} {raw : Bytes}
    (h : events = done ++ raw :: rest) : events.getD done.length [] = raw := by
  simp [h]

theorem appendFrom_covers {events done rest : List Bytes} {peaks peaks' : List (Option Bytes)}
    (hsplit : events = done ++ rest) (hc : CoversEvents events 0 done.length peaks)
    (h : appendFrom done.length peaks rest = .ok peaks') :
    CoversEvents events 0 events.length peaks' := by
  induction rest generalizing done peaks with
  | nil =>
      obtain rfl := Except.ok.inj h
      rw [hsplit, List.append_nil] at *
      exact hc
  | cons raw rest ih =>
      unfold appendFrom at h
      obtain ⟨leaf, hleaf, h⟩ := bind_ok.mp h
      obtain ⟨next, hnext, h⟩ := bind_ok.mp h
      have hstep := append_covers (getD_of_split hsplit) hc hleaf hnext
      have hlen : done.length + 1 = (done ++ [raw]).length := by simp
      rw [hlen] at hstep h
      exact ih (by rw [hsplit, List.append_assoc]; rfl) hstep h

theorem appendEvents_covers {events : List Bytes} {peaks : List (Option Bytes)}
    (h : appendEvents events = .ok peaks) : CoversEvents events 0 events.length peaks :=
  @appendFrom_covers events [] events [] peaks rfl rfl h

/-- The peaks of fewer than `2 ^ 64` events stay below height 64. -/
theorem length_peaks_le {events : List Bytes} {count : Nat} {peaks : List (Option Bytes)}
    (hc : CoversEvents events 0 count peaks) (hcount : count < 2 ^ 64) : peaks.length ≤ 64 :=
  MountainRange.Covers.length_le hc hcount

theorem exists_appendFrom {events done rest : List Bytes} {peaks : List (Option Bytes)}
    (hsplit : events = done ++ rest) (hlen : events.length < 2 ^ 64)
    (hraw : ∀ raw ∈ events, raw.length < 2 ^ 64) (hc : CoversEvents events 0 done.length peaks) :
    ∃ peaks', appendFrom done.length peaks rest = .ok peaks' := by
  induction rest generalizing done peaks with
  | nil => exact ⟨peaks, rfl⟩
  | cons raw rest ih =>
      have hdone : done.length < 2 ^ 64 := by
        rw [hsplit, List.length_append] at hlen
        omega
      have hmem : raw ∈ events := by simp [hsplit]
      obtain ⟨leaf, hleaf⟩ : ∃ leaf, eventLeaf done.length raw = .ok leaf :=
        ⟨_, eventLeaf_ok.mpr ⟨by omega, by have := hraw raw hmem; omega, rfl⟩⟩
      have hpeaks := length_peaks_le hc hdone
      obtain ⟨next, hnext⟩ : ∃ next, appendEventPeak peaks leaf = .ok next :=
        exists_carryPeaks leaf (by omega)
      have hstep := append_covers (getD_of_split hsplit) hc hleaf hnext
      have hlen' : done.length + 1 = (done ++ [raw]).length := by simp
      rw [hlen'] at hstep
      obtain ⟨peaks', hpeaks'⟩ := ih (by rw [hsplit, List.append_assoc]; rfl) hstep
      refine ⟨peaks', ?_⟩
      unfold appendFrom
      rw [← hlen'] at hpeaks'
      exact bind_ok.mpr ⟨leaf, hleaf, bind_ok.mpr ⟨next, hnext, hpeaks'⟩⟩

/-! ## The root -/

theorem mem_presentPeaks {peaks : List (Option Bytes)} {first height : Nat} {peak : Bytes} :
    (first + height, peak) ∈ presentPeaks first peaks ↔ peaks.getD height none = some peak := by
  have hlow : ∀ (peaks : List (Option Bytes)) (first : Nat), ∀ entry ∈ presentPeaks first peaks,
      first ≤ entry.1 := by
    intro peaks
    induction peaks with
    | nil => intro first entry h; cases h
    | cons p rest ih =>
        intro first entry h
        cases p with
        | none => exact Nat.le_of_succ_le (ih (first + 1) entry h)
        | some p =>
            rcases List.mem_cons.mp h with rfl | h
            · exact le_rfl
            · exact Nat.le_of_succ_le (ih (first + 1) entry h)
  induction peaks generalizing first height with
  | nil => simp [presentPeaks]
  | cons p rest ih =>
      cases height with
      | zero =>
          have hskip : (first, peak) ∉ presentPeaks (first + 1) rest := by
            intro hmem
            exact absurd (hlow rest (first + 1) _ hmem) (Nat.not_succ_le_self first)
          cases p with
          | none => simp [presentPeaks, hskip]
          | some p =>
              simp only [presentPeaks, List.mem_cons, Nat.add_zero, hskip, or_false,
                List.getD_cons_zero, Prod.mk.injEq, Option.some.injEq, true_and]
              exact eq_comm
      | succ height =>
          have hnext := @ih (first + 1) height
          rw [show first + 1 + height = first + (height + 1) by omega] at hnext
          rw [List.getD_cons_succ]
          cases p with
          | none => exact hnext
          | some p =>
              refine Iff.trans ?_ hnext
              rw [presentPeaks, List.mem_cons, or_iff_right]
              intro heq
              have := congrArg Prod.fst heq
              dsimp only at this
              omega

/-- Peaks of one digest length are determined by their bytes. -/
theorem peakBytes_inj {xs ys : List (Nat × Bytes)} {bytes : Bytes}
    (hx : ∀ entry ∈ xs, entry.2.length = 32) (hy : ∀ entry ∈ ys, entry.2.length = 32)
    (h : peakBytes xs = .ok bytes) (h' : peakBytes ys = .ok bytes) : xs = ys := by
  induction xs generalizing ys bytes with
  | nil =>
      obtain rfl := Except.ok.inj h
      cases ys with
      | nil => rfl
      | cons entry rest =>
          unfold peakBytes at h'
          simp only [bind_ok, toBytes_ok, pure_ok] at h'
          obtain ⟨_, ⟨-, rfl⟩, _, -, hbytes⟩ := h'
          exact absurd (congrArg List.length hbytes) (by simp)
  | cons entry rest ih =>
      obtain ⟨height, peak⟩ := entry
      unfold peakBytes at h
      simp only [bind_ok, toBytes_ok, pure_ok] at h
      obtain ⟨_, ⟨hheight, rfl⟩, tail, htail, rfl⟩ := h
      cases ys with
      | nil => exact absurd (congrArg List.length (Except.ok.inj h')) (by simp; omega)
      | cons entry' rest' =>
          obtain ⟨height', peak'⟩ := entry'
          unfold peakBytes at h'
          simp only [bind_ok, toBytes_ok, pure_ok] at h'
          obtain ⟨_, ⟨hheight', rfl⟩, tail', htail', heq⟩ := h'
          obtain ⟨hpeak, hrest⟩ := List.forall_mem_cons.mp hx
          obtain ⟨hpeak', hrest'⟩ := List.forall_mem_cons.mp hy
          dsimp only at hpeak hpeak'
          have hsplit := List.append_inj heq (by simp [hpeak, hpeak'])
          have hfront := List.append_inj hsplit.1 (by simp)
          obtain rfl := ofNatLE_inj hheight' hheight hfront.1
          obtain rfl := hfront.2
          obtain rfl := hsplit.2
          rw [ih hrest hrest' htail htail']

theorem exists_peakBytes {first : Nat} {peaks : List (Option Bytes)}
    (h : first + peaks.length ≤ 256 ^ 4) : ∃ bytes, peakBytes (presentPeaks first peaks) = .ok bytes := by
  induction peaks generalizing first with
  | nil => exact ⟨_, rfl⟩
  | cons p rest ih =>
      rw [List.length_cons] at h
      obtain ⟨bytes, hbytes⟩ := @ih (first + 1) (by omega)
      cases p with
      | none => exact ⟨bytes, hbytes⟩
      | some p =>
          refine ⟨ofNatLE 4 first ++ p ++ bytes, ?_⟩
          unfold presentPeaks peakBytes
          simp only [bind_ok, pure_ok]
          exact ⟨_, toBytes_ok.mpr ⟨by omega, rfl⟩, _, hbytes, rfl⟩

theorem length_presentPeaks_le (first : Nat) (peaks : List (Option Bytes)) :
    (presentPeaks first peaks).length ≤ peaks.length := by
  induction peaks generalizing first with
  | nil => exact le_rfl
  | cons p rest ih =>
      have := ih (first + 1)
      cases p with
      | none => exact Nat.le_succ_of_le this
      | some p => exact Nat.succ_le_succ this

theorem exists_rootMessage {count : Nat} {peaks : List (Option Bytes)} (hcount : count < 2 ^ 64)
    (hpeaks : peaks.length ≤ 64) : ∃ message, rootMessage count peaks = .ok message := by
  obtain ⟨bytes, hbytes⟩ := @exists_peakBytes 0 peaks (by omega)
  have hpresent := length_presentPeaks_le 0 peaks
  have hcount8 : toBytes 8 count = .ok (ofNatLE 8 count) := toBytes_ok.mpr ⟨by omega, rfl⟩
  have hnumber : toBytes 4 (presentPeaks 0 peaks).length
      = .ok (ofNatLE 4 (presentPeaks 0 peaks).length) := toBytes_ok.mpr ⟨by omega, rfl⟩
  unfold rootMessage
  exact ⟨_, bind_ok.mpr ⟨_, hcount8, bind_ok.mpr ⟨_, hnumber, bind_ok.mpr ⟨_, hbytes, rfl⟩⟩⟩⟩

/-- The message of the root determines the count and the present peaks. -/
theorem rootMessage_inj {count count' : Nat} {peaks peaks' : List (Option Bytes)} {message : Bytes}
    (hx : ∀ entry ∈ presentPeaks 0 peaks, entry.2.length = 32)
    (hy : ∀ entry ∈ presentPeaks 0 peaks', entry.2.length = 32)
    (h : rootMessage count peaks = .ok message) (h' : rootMessage count' peaks' = .ok message) :
    count = count' ∧ presentPeaks 0 peaks = presentPeaks 0 peaks' := by
  unfold rootMessage at h h'
  simp only [bind_ok, toBytes_ok, pure_ok] at h h'
  obtain ⟨_, ⟨hcount, rfl⟩, _, ⟨-, rfl⟩, bytes, hbytes, rfl⟩ := h
  obtain ⟨_, ⟨hcount', rfl⟩, _, ⟨-, rfl⟩, bytes', hbytes', heq⟩ := h'
  have hsplit := List.append_inj heq (by simp)
  have hfront := List.append_inj hsplit.1 (by simp)
  have hcounts := List.append_cancel_left hfront.1
  obtain rfl := hsplit.2
  exact ⟨(ofNatLE_inj hcount' hcount hcounts).symm, peakBytes_inj hx hy hbytes hbytes'⟩

/-! ## Binding -/

/-- Every message hashed for the trees of a sequence and for its root. -/
def hashedMessages (events : List Bytes) : Set Bytes :=
  {m | (∃ h, events.length.testBit h = true ∧ m ∈ blockMessages Sha256.digest nodeMsg
      (leafMsg events) h (blockStart events.length h))
    ∨ ∃ peaks, appendEvents events = .ok peaks ∧ rootMessage events.length peaks = .ok m}

theorem peak_eq {events : List Bytes} {peaks : List (Option Bytes)}
    (h : appendEvents events = .ok peaks) (k : Nat) :
    peaks.getD k none = if events.length.testBit k
      then some (treeRoot events k (blockStart events.length k)) else none := by
  have hpeak := MountainRange.Covers.peak (appendEvents_covers h) k
  rw [Nat.zero_add] at hpeak
  exact hpeak

/-- Every present peak is a digest. -/
theorem length_presentPeak {events : List Bytes} {peaks : List (Option Bytes)}
    (h : appendEvents events = .ok peaks) : ∀ entry ∈ presentPeaks 0 peaks, entry.2.length = 32 := by
  rintro ⟨height, peak⟩ hmem
  have hget := (@mem_presentPeaks peaks 0 height peak).mp (by rwa [Nat.zero_add])
  rw [peak_eq h height] at hget
  split at hget
  · obtain rfl := Option.some.inj hget
    show (treeRoot events height _).length = 32
    rw [treeRoot, MountainRange.rootOf_eq, Sha256.length_digest]
  · exact absurd hget (by simp)

/-- **Equal roots are roots of equal sequences** where the hash has no collision. -/
theorem eventMmrRoot_binds {xs ys : List Bytes} {px py : List (Option Bytes)} {root : String}
    (hx : appendEvents xs = .ok px) (hy : appendEvents ys = .ok py)
    (hrx : eventMmrRoot xs.length px = .ok root) (hry : eventMmrRoot ys.length py = .ok root)
    (hinj : Set.InjOn Sha256.digest (hashedMessages xs ∪ hashedMessages ys)) : xs = ys := by
  unfold eventMmrRoot at hrx hry
  obtain ⟨mx, hmx, hdx⟩ := bind_ok.mp hrx
  obtain ⟨my, hmy, hdy⟩ := bind_ok.mp hry
  have hdigest : Sha256.digest mx = Sha256.digest my :=
    Bytes.hex_injective ((pure_ok.mp hdx).trans (pure_ok.mp hdy).symm)
  have hmessage : mx = my :=
    hinj (.inl (.inr ⟨px, hx, hmx⟩)) (.inr (.inr ⟨py, hy, hmy⟩)) hdigest
  obtain ⟨hcount, hpresent⟩ := rootMessage_inj (length_presentPeak hx) (length_presentPeak hy) hmx
    (hmessage ▸ hmy)
  refine List.ext_getElem hcount fun i hi hi' => ?_
  -- the block of the event has one root in both ranges
  obtain ⟨h, hbit, hlo, hhi⟩ := MountainRange.exists_block hi
  have hpx := peak_eq hx h
  have hpy := peak_eq hy h
  rw [← hcount, if_pos hbit] at hpy
  rw [if_pos hbit, ← @mem_presentPeaks px 0, hpresent, mem_presentPeaks, hpy] at hpx
  have hleaf := MountainRange.leafMsg_eq_of_rootOf_eq hinj nodeMsg_inj
    (fun m hm => .inl (.inl ⟨h, hbit, hm⟩))
    (fun m hm => .inr (.inl ⟨h, hcount ▸ hbit, by rw [← hcount]; exact hm⟩))
    (Option.some.inj hpx).symm hlo hhi
  have hget := leafMsg_inj hleaf
  rwa [List.getD_eq_getElem _ _ hi, List.getD_eq_getElem _ _ hi'] at hget

def oneEvent : List Bytes := [[0x61]]

def oneLeaf : Bytes :=
  [9, 24, 196, 184, 8, 26, 7, 226, 64, 192, 25, 32, 226, 178, 177, 136, 153, 242, 106, 178, 12, 13,
    160, 224, 74, 216, 71, 206, 34, 218, 209, 212]

def oneRootMsg : Bytes :=
  EVENT_ROOT_DOMAIN ++ ofNatLE 8 1 ++ ofNatLE 4 1 ++ (ofNatLE 4 0 ++ oneLeaf)

def oneRoot : String := "69a9e598a954723455bfd175511615c58053902374ca15f5a8f733fdc4f1f56e"

/-- The two digests, by the evaluator. -/
theorem digests_one : Sha256.digest (leafMsg oneEvent 0) = oneLeaf
    ∧ Sha256.hexdigest oneRootMsg = oneRoot := by
  rw [Receipt.NatSha256.digest_eq_toBytes, Receipt.NatSha256.hexdigest_eq_hashWords]
  refine ⟨?_, ?_⟩
  · decide +kernel
  · decide +kernel

theorem digest_leaf_one : Sha256.digest (leafMsg oneEvent 0) = oneLeaf := digests_one.1

theorem hexdigest_root_one : Sha256.hexdigest oneRootMsg = oneRoot := digests_one.2

theorem appendEvents_one : appendEvents oneEvent = .ok [some oneLeaf] := by
  have hleaf : eventLeaf 0 [0x61] = .ok oneLeaf :=
    eventLeaf_ok.mpr ⟨by decide, by decide, digest_leaf_one⟩
  unfold appendEvents oneEvent appendFrom
  exact bind_ok.mpr ⟨_, hleaf, rfl⟩

theorem rootMessage_one : rootMessage oneEvent.length [some oneLeaf] = .ok oneRootMsg := rfl

theorem eventMmrRoot_one : eventMmrRoot oneEvent.length [some oneLeaf] = .ok oneRoot := by
  unfold eventMmrRoot
  exact bind_ok.mpr ⟨_, rootMessage_one, congrArg Except.ok hexdigest_root_one⟩

/-- Two messages are hashed for one event. -/
theorem mem_hashedMessages_one {m : Bytes} (h : m ∈ hashedMessages oneEvent) :
    m = leafMsg oneEvent 0 ∨ m = oneRootMsg := by
  rcases h with ⟨k, hbit, hm⟩ | ⟨peaks, hpeaks, hm⟩
  · -- the only block is the event itself
    obtain rfl : k = 0 := by
      by_contra hk
      have hlt : oneEvent.length < 2 ^ k := Nat.one_lt_two_pow hk
      rw [Nat.testBit_lt_two_pow hlt] at hbit
      exact absurd hbit (by simp)
    exact .inl (List.mem_singleton.mp hm)
  · obtain rfl := Except.ok.inj (appendEvents_one.symm.trans hpeaks)
    exact .inr (Except.ok.inj (rootMessage_one.symm.trans hm)).symm

theorem injOn_one : Set.InjOn Sha256.digest (hashedMessages oneEvent ∪ hashedMessages oneEvent) := by
  have hne : Sha256.digest (leafMsg oneEvent 0) ≠ Sha256.digest oneRootMsg := by
    intro h
    have hhex := (congrArg Bytes.hex h).trans hexdigest_root_one
    rw [digest_leaf_one] at hhex
    exact absurd hhex (by decide)
  intro x hx y hy h
  rw [Set.union_self] at hx hy
  rcases mem_hashedMessages_one hx with rfl | rfl
  · rcases mem_hashedMessages_one hy with rfl | rfl
    · rfl
    · exact absurd h hne
  · rcases mem_hashedMessages_one hy with rfl | rfl
    · exact absurd h.symm hne
    · rfl

end AttestedCompute.Dirichlet.EventMmr

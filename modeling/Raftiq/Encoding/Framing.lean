import Mathlib.Data.List.Basic
import Mathlib.Data.Nat.Notation
import Mathlib.Order.Nat

namespace Raftiq.Framing

/-! A log of self-delimiting frames that is read back from the start.  A frame that was cut
short ends the log; what stands before it is kept. -/

variable {Byte Frame Fault State Refusal : Type*}

/-- What a reader finds at the front of its input. -/
inductive Reading (Byte Frame Fault : Type*) where
  | ended
  | torn
  | invalid (fault : Fault)
  | frame (frame : Frame) (rest : List Byte)

/-- A format in which every frame can be told from what follows it and from its own beginning. -/
structure Format (Byte Frame Fault : Type*) where
  encode : Frame → List Byte
  read : List Byte → Reading Byte Frame Fault
  read_nil : read [] = .ended
  read_encode : ∀ frame rest, read (encode frame ++ rest) = .frame frame rest
  read_cut : ∀ frame cut, 0 < cut → cut < (encode frame).length → read ((encode frame).take cut) = .torn
  read_shorter : ∀ bytes frame rest, read bytes = .frame frame rest → rest.length < bytes.length

/-- The state after the last whole frame, where this frame ends, and whether anything follows. -/
structure Scanned (State : Type*) where
  state : State
  offset : ℕ
  torn : Bool
deriving DecidableEq

inductive ScanError (Fault Refusal : Type*) where
  | exhausted
  | invalid (offset : ℕ) (fault : Fault)
  | refused (refusal : Refusal)
deriving DecidableEq, Repr

def encodeAll (format : Format Byte Frame Fault) (frames : List Frame) : List Byte :=
  frames.flatMap format.encode

def applyAll (apply : State → Frame → Except Refusal State) : State → List Frame → Except Refusal State
  | state, [] => .ok state
  | state, frame :: rest =>
      match apply state frame with
      | .error refusal => .error refusal
      | .ok next => applyAll apply next rest

/-- Reads frames until the input ends or stops in the middle of one. -/
def scan (format : Format Byte Frame Fault) (apply : State → Frame → Except Refusal State) :
    ℕ → ℕ → State → List Byte → Except (ScanError Fault Refusal) (Scanned State)
  | 0, _, _, _ => .error .exhausted
  | fuel + 1, offset, state, bytes =>
      match format.read bytes with
      | .ended => .ok { state := state, offset := offset, torn := false }
      | .torn => .ok { state := state, offset := offset, torn := true }
      | .invalid fault => .error (.invalid offset fault)
      | .frame frame rest =>
          match apply state frame with
          | .error refusal => .error (.refused refusal)
          | .ok next => scan format apply fuel (offset + (bytes.length - rest.length)) next rest

variable (format : Format Byte Frame Fault) {apply : State → Frame → Except Refusal State}

@[simp] theorem encodeAll_nil : encodeAll format [] = [] := rfl

@[simp] theorem encodeAll_cons (frame : Frame) (rest : List Frame) :
    encodeAll format (frame :: rest) = format.encode frame ++ encodeAll format rest :=
  List.flatMap_cons

theorem encodeAll_append (front back : List Frame) :
    encodeAll format (front ++ back) = encodeAll format front ++ encodeAll format back :=
  List.flatMap_append

theorem encode_length_pos (frame : Frame) : 0 < (format.encode frame).length := by
  rw [List.length_pos_iff]
  intro none
  have found := format.read_encode frame []
  rw [none, List.nil_append, format.read_nil] at found
  cases found

theorem length_le_encodeAll (frames : List Frame) : frames.length ≤ (encodeAll format frames).length := by
  induction frames with
  | nil => exact le_rfl
  | cons frame rest ih =>
      have positive := encode_length_pos format frame
      rw [encodeAll_cons, List.length_append, List.length_cons]
      omega

/-- Every frame takes up some of the input, so fuel for its length is enough. -/
theorem scan_ne_exhausted {fuel : ℕ} {bytes : List Byte} (enough : bytes.length < fuel) (offset : ℕ)
    (state : State) : scan format apply fuel offset state bytes ≠ .error .exhausted := by
  induction fuel generalizing offset state bytes with
  | zero => exact absurd enough (Nat.not_lt_zero _)
  | succ fuel ih =>
      rw [scan]
      cases found : format.read bytes with
      | ended => simp
      | torn => simp
      | invalid fault => simp
      | frame frame rest =>
          cases applied : apply state frame with
          | error refusal => simp [applied]
          | ok next =>
              have shorter := format.read_shorter bytes frame rest found
              simp only [applied]
              exact ih (by omega) _ next

theorem applyAll_take {start final : State} {frames : List Frame}
    (applied : applyAll apply start frames = .ok final) (n : ℕ) :
    ∃ reached, applyAll apply start (frames.take n) = .ok reached := by
  induction frames generalizing start n with
  | nil =>
      rw [List.take_nil]
      exact ⟨start, rfl⟩
  | cons frame rest ih =>
      cases n with
      | zero => exact ⟨start, rfl⟩
      | succ n =>
          simp only [List.take_succ_cons, applyAll] at applied ⊢
          cases step : apply start frame with
          | error refusal => simp [step] at applied
          | ok next =>
              rw [step] at applied
              exact ih applied n

/-- Whole frames are applied one after the other. -/
theorem scan_encodeAll (apply : State → Frame → Except Refusal State) (frames : List Frame)
    (extra offset : ℕ) (start : State) (tail : List Byte) :
    scan format apply (frames.length + extra) offset start (encodeAll format frames ++ tail) =
      match applyAll apply start frames with
      | .error refusal => .error (.refused refusal)
      | .ok reached => scan format apply extra (offset + (encodeAll format frames).length) reached tail := by
  induction frames generalizing offset start with
  | nil => simp [applyAll]
  | cons frame rest ih =>
      have more : (frame :: rest).length + extra = rest.length + extra + 1 := by
        rw [List.length_cons]
        omega
      rw [more, encodeAll_cons, List.append_assoc, scan, format.read_encode]
      simp only [applyAll]
      cases apply start frame with
      | error refusal => rfl
      | ok next =>
          dsimp only
          rw [ih]
          cases applyAll apply next rest with
          | error refusal => rfl
          | ok reached =>
              simp only [List.length_append]
              congr 1
              omega

/-- Reading a log back as a whole. -/
theorem scan_whole (apply : State → Frame → Except Refusal State) (frames : List Frame) (start : State) :
    scan format apply ((encodeAll format frames).length + 1) 0 start (encodeAll format frames) =
      match applyAll apply start frames with
      | .error refusal => .error (.refused refusal)
      | .ok reached =>
          .ok { state := reached, offset := (encodeAll format frames).length, torn := false } := by
  have enough := length_le_encodeAll format frames
  obtain ⟨extra, fuel⟩ : ∃ extra, (encodeAll format frames).length + 1 = frames.length + (extra + 1) :=
    ⟨(encodeAll format frames).length - frames.length, by omega⟩
  have scanned := scan_encodeAll format apply frames (extra + 1) 0 start []
  rw [List.append_nil] at scanned
  rw [fuel, scanned]
  cases applyAll apply start frames with
  | error refusal => rfl
  | ok reached => simp only [scan, format.read_nil, Nat.zero_add]

/-- Any cut of a log falls between two frames or inside one. -/
theorem take_encodeAll (frames : List Frame) (k : ℕ) (inside : k ≤ (encodeAll format frames).length) :
    ∃ n ≤ frames.length, (encodeAll format (frames.take n)).length ≤ k ∧
      (n < frames.length → k < (encodeAll format (frames.take (n + 1))).length) ∧
      ((encodeAll format frames).take k = encodeAll format (frames.take n) ∨
        ∃ frame cut, 0 < cut ∧ cut < (format.encode frame).length ∧
          k = (encodeAll format (frames.take n)).length + cut ∧
          (encodeAll format frames).take k =
            encodeAll format (frames.take n) ++ (format.encode frame).take cut) := by
  induction frames generalizing k with
  | nil => exact ⟨0, le_rfl, Nat.zero_le k, fun more => absurd more (by simp), Or.inl (by simp)⟩
  | cons frame rest ih =>
      rw [encodeAll_cons, List.length_append] at inside
      rcases Nat.lt_or_ge k (format.encode frame).length with short | long
      · refine ⟨0, Nat.zero_le _, Nat.zero_le k, fun _ => by simpa using short, ?_⟩
        rw [encodeAll_cons, List.take_append_of_le_length short.le]
        rcases Nat.eq_zero_or_pos k with zero | positive
        · exact Or.inl (by simp [zero])
        · exact Or.inr ⟨frame, k, positive, short, by simp, by simp⟩
      · obtain ⟨n, within, fits, next, which⟩ := ih (k - (format.encode frame).length) (by omega)
        refine ⟨n + 1, Nat.succ_le_succ within, ?_, ?_, ?_⟩
        · rw [List.take_succ_cons, encodeAll_cons, List.length_append]
          omega
        · intro more
          have bound := next (Nat.lt_of_succ_lt_succ more)
          rw [List.take_succ_cons, encodeAll_cons, List.length_append]
          omega
        · have split : (encodeAll format (frame :: rest)).take k = format.encode frame ++
              (encodeAll format rest).take (k - (format.encode frame).length) := by
            rw [encodeAll_cons, List.take_append, List.take_of_length_le long]
          rw [split, List.take_succ_cons, encodeAll_cons]
          rcases which with whole | ⟨other, cut, positive, below, place, part⟩
          · exact Or.inl (by rw [whole])
          · refine Or.inr ⟨other, cut, positive, below, ?_, by rw [part, List.append_assoc]⟩
            rw [List.length_append]
            omega

/-- A log that reads back without error reads back after any cut, up to its last whole frame. -/
theorem scan_take {start final : State} {frames : List Frame}
    (applied : applyAll apply start frames = .ok final) {k : ℕ}
    (inside : k ≤ (encodeAll format frames).length) :
    ∃ n ≤ frames.length, (encodeAll format (frames.take n)).length ≤ k ∧
      (n < frames.length → k < (encodeAll format (frames.take (n + 1))).length) ∧
      (encodeAll format frames).take (encodeAll format (frames.take n)).length =
        encodeAll format (frames.take n) ∧
      ∃ reached, applyAll apply start (frames.take n) = .ok reached ∧
        scan format apply (k + 1) 0 start ((encodeAll format frames).take k) =
          .ok {
            state := reached
            offset := (encodeAll format (frames.take n)).length
            torn := decide ((encodeAll format (frames.take n)).length < k) } := by
  obtain ⟨n, within, fits, next, which⟩ := take_encodeAll format frames k inside
  obtain ⟨reached, applied⟩ := applyAll_take applied n
  have front : encodeAll format frames =
      encodeAll format (frames.take n) ++ encodeAll format (frames.drop n) := by
    rw [← encodeAll_append, List.take_append_drop]
  have whole : (encodeAll format frames).take (encodeAll format (frames.take n)).length =
      encodeAll format (frames.take n) := by
    rw [front, List.take_left]
  refine ⟨n, within, fits, next, whole, reached, applied, ?_⟩
  have enough := length_le_encodeAll format (frames.take n)
  obtain ⟨extra, fuel⟩ : ∃ extra, k + 1 = (frames.take n).length + (extra + 1) :=
    ⟨k - (frames.take n).length, by omega⟩
  rw [fuel]
  rcases which with same | ⟨frame, cut, positive, below, place, part⟩
  · have length : k = (encodeAll format (frames.take n)).length := by
      have taken := congrArg List.length same
      rw [List.length_take] at taken
      omega
    have scanned := scan_encodeAll format apply (frames.take n) (extra + 1) 0 start []
    rw [List.append_nil, applied] at scanned
    rw [same, scanned]
    simp only [scan, format.read_nil, Nat.zero_add]
    rw [decide_eq_false (by omega)]
  · have scanned := scan_encodeAll format apply (frames.take n) (extra + 1) 0 start
      ((format.encode frame).take cut)
    rw [applied] at scanned
    rw [part, scanned]
    simp only [scan, format.read_cut frame cut positive below, Nat.zero_add]
    rw [decide_eq_true (by omega)]

end Raftiq.Framing

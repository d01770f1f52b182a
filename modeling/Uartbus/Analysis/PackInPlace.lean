import Uartbus.Analysis.PackValue

/-!
# `pack_value_into` is `pack_value` in place

The loop's signed `index` falls below zero and is bumped back after every eight groups.  Between two
rounds it is below the length of the magnitude and the offset is below eight (`LoopInBounds`).  With
that every index and shift of a round is in range (`packStepInPlace_eq`), and the round keeps it
(`LoopInBounds.packStep`), so the checked loop is the loop without checks.  A call never panics, and
what it leaves in the buffer is `placed`.
-/

set_option autoImplicit false

namespace Uartbus.Analysis

open Lib Interface Model

/-! ## A round of the loop -/

variable {magnitude dst encoded : Bytes}

theorem indexMagnitude_eq {i : ℤ} (hlow : 0 ≤ i) (hhigh : i < magnitude.length) :
    indexMagnitude magnitude i = some (byteAt magnitude i) := by
  have hlt : i.toNat < magnitude.length := by omega
  rw [indexMagnitude, if_pos hlow, byteAt, List.getD_eq_getElem?_getD,
    List.getElem?_eq_getElem hlt, Option.map_some, Option.getD_some]

theorem shiftAmount_eq {amount : ℤ} (hlow : 0 ≤ amount) (hhigh : amount < 64) :
    shiftAmount amount = some amount.toNat := if_pos ⟨hlow, hhigh⟩

/-- A group is cut from the same bytes in both versions. -/
theorem packGroupInPlace_eq {offset : ℕ} {index : ℤ} (hoffset : offset < 8)
    (hindex : index < magnitude.length) :
    packGroupInPlace magnitude offset index = some (packGroup magnitude offset index) := by
  unfold packGroupInPlace packGroup
  by_cases hzero : offset = 0
  · by_cases hneg : index ≥ 0
    · simp only [hzero, hneg, if_true, indexMagnitude_eq hneg hindex, Option.bind_eq_bind,
        Option.bind_some]
    · simp only [hzero, hneg, if_true, if_false, Option.bind_eq_bind, Option.bind_some]
  · by_cases hnext : index + 1 ≥ 0 ∧ (index + 1).toNat < magnitude.length
    · have hlow := indexMagnitude_eq hnext.1 (show index + 1 < magnitude.length by omega)
      have hright : shiftAmount (8 - offset) = some (8 - offset) := by
        rw [shiftAmount_eq (by omega) (by omega)]
        congr 1
        omega
      have hleft : shiftAmount offset = some offset := shiftAmount_eq (by omega) (by omega)
      by_cases hneg : index ≥ 0
      · simp only [hzero, hnext, hneg, and_self, if_true, if_false, hlow, hright, hleft,
          indexMagnitude_eq hneg hindex, Option.bind_eq_bind, Option.bind_some]
      · simp only [hzero, hnext, hneg, and_self, if_true, if_false, hlow, hright,
          Option.bind_eq_bind, Option.bind_some]
    · simp only [hzero, hnext, if_false, Option.bind_eq_bind, Option.bind_some]

/-- What holds between two rounds, for a destination of at least so many bytes. -/
structure LoopInBounds (magnitude : Bytes) (room : ℕ) (s : PackLoop) : Prop where
  offset_lt : s.offset < 8
  index_lt : s.index < magnitude.length
  room_le : room ≤ s.dst.length

variable {required start outputIndex room : ℕ} {s : PackLoop}

theorem packStepInPlace_eq (negative : Option Bool) (h : LoopInBounds magnitude room s)
    (hroom : start + outputIndex < room) :
    packStepInPlace negative magnitude required start s outputIndex =
      some (packStep negative magnitude required start s outputIndex) := by
  have hstore : start + outputIndex < s.dst.length := lt_of_lt_of_le hroom h.room_le
  simp only [packStepInPlace, packGroupInPlace_eq h.offset_lt h.index_lt, Option.bind_eq_bind,
    Option.bind_some, if_pos hstore, packStep]

theorem LoopInBounds.packStep (h : LoopInBounds magnitude room s) (negative : Option Bool) :
    LoopInBounds magnitude room (packStep negative magnitude required start s outputIndex) := by
  have hoffset := h.offset_lt
  have hindex := h.index_lt
  refine { offset_lt := ?_, index_lt := ?_, room_le := ?_ }
  · simp only [Model.packStep]
    split <;> omega
  · simp only [Model.packStep]
    split <;> omega
  · rw [Model.packStep, List.length_set]
    exact h.room_le

/-- **The loop** never leaves the magnitude or the destination. -/
theorem packLoopInPlace_eq (negative : Option Bool) (hroom : start + required ≤ dst.length) :
    (List.range required).reverse.foldlM (packStepInPlace negative magnitude required start)
        ⟨0, (magnitude.length : ℤ) - 1, dst⟩ =
      some ((List.range required).reverse.foldl (packStep negative magnitude required start)
        ⟨0, (magnitude.length : ℤ) - 1, dst⟩) := by
  refine foldlM_eq_some_foldl _ _ (LoopInBounds magnitude (start + required)) ?_ ?_
  · exact { offset_lt := Nat.zero_lt_succ 7, index_lt := sub_one_lt _, room_le := hroom }
  · intro outputIndex hmem s h
    have hlt : outputIndex < required := List.mem_range.mp (List.mem_reverse.mp hmem)
    exact ⟨packStepInPlace_eq negative h (by omega), h.packStep negative⟩

/-! ## The calls -/

/-- A result that has its buffer with it, on a buffer that a failed call leaves as it was. -/
def inBuffer (dst : Bytes) :
    Except PackError (ℕ × Bytes) → Except PackError ℕ × Bytes
  | .ok (n, dst') => (.ok n, dst')
  | .error e => (.error e, dst)

theorem packValueMagnitudeInPlace_eq (negative : Option Bool) (magnitude dst : Bytes)
    (start : ℕ) :
    packValueMagnitudeInPlace negative magnitude dst start =
      some (inBuffer dst (packValueMagnitude negative magnitude dst start)) := by
  unfold packValueMagnitudeInPlace packValueMagnitude
  by_cases hempty : magnitude = []
  · rw [if_pos hempty, if_pos hempty]
    split <;> rfl
  · rw [if_neg hempty, if_neg hempty]
    by_cases hroom : start + calcPackReqBytesBytes negative.isSome magnitude > dst.length
    · rw [if_pos hroom, if_pos hroom]
      rfl
    · rw [if_neg hroom, if_neg hroom, packLoopInPlace_eq negative (Nat.not_lt.mp hroom)]
      rfl

/-- The checked call is the call without the checks. -/
theorem packValueIntoInPlace_eq (signed : Bool) (v : ℤ) (dst : Bytes) (start : ℕ) :
    packValueIntoInPlace signed v dst start =
      some (inBuffer dst (packValueInto signed v dst start)) := by
  unfold packValueIntoInPlace packValueInto
  cases hbytes : magnitudeBytesForPack signed v with
  | error e => rfl
  | ok bytes =>
    obtain ⟨negative, magnitude⟩ := bytes
    simp only [bind, Except.bind]
    split
    · rfl
    · split
      · rfl
      · rw [packValueMagnitudeInPlace_eq]
        cases packValueMagnitude negative magnitude dst start with
        | error e => rfl
        | ok written => rfl

/-- What a call does with the result of `pack_value`: an encoding with enough room is put at its
place, and nothing else happens to the buffer. -/
def placed (packed : Except PackError Bytes) (dst : Bytes) (start : ℕ) :
    Except PackError ℕ × Bytes :=
  match packed with
  | .error e => (.error e, dst)
  | .ok encoded =>
    if start > dst.length then (.error .startIndexOutOfBounds, dst)
    else if start + encoded.length > dst.length then
      (.error (.destinationTooSmall encoded.length), dst)
    else (.ok encoded.length, dst.take start ++ encoded ++ dst.drop (start + encoded.length))

/-- There is an encoding with room for it, or the call fails. -/
theorem placed_cases (packed : Except PackError Bytes) (dst : Bytes) (start : ℕ) :
    (∃ encoded, packed = .ok encoded ∧ start + encoded.length ≤ dst.length ∧
        placed packed dst start = (.ok encoded.length,
          dst.take start ++ encoded ++ dst.drop (start + encoded.length))) ∨
      ((∀ encoded, packed = .ok encoded → dst.length < start + encoded.length) ∧
        ∃ e, placed packed dst start = (.error e, dst)) := by
  cases packed with
  | error e => exact .inr ⟨by simp, e, rfl⟩
  | ok encoded =>
    by_cases hroom : start + encoded.length ≤ dst.length
    · refine .inl ⟨encoded, rfl, hroom, ?_⟩
      rw [placed, if_neg (by omega), if_neg (by omega)]
    · refine .inr ⟨fun _ h => Except.ok.inj h ▸ Nat.not_le.mp hroom, ?_⟩
      rw [placed, if_pos (Nat.not_le.mp hroom)]
      split
      · exact ⟨_, rfl⟩
      · exact ⟨_, rfl⟩

theorem packValue_error {v : ℤ} (hv : v < 0) :
    packValue false v = .error .negativeUnsignedValue := by
  simp only [packValue, magnitudeBytesForPack, hv, and_self, if_true, bind, Except.bind]

/-- **`pack_value_into` is `pack_value` at a place of the buffer.** -/
theorem inBuffer_packValueInto (signed : Bool) (v : ℤ) (dst : Bytes) (start : ℕ) :
    inBuffer dst (packValueInto signed v dst start) = placed (packValue signed v) dst start := by
  unfold packValueInto
  by_cases hv : signed = false → 0 ≤ v
  · obtain ⟨negative, magnitude, n, hbytes, hn, -, hpacked, hpack⟩ :=
      packValueMagnitude_value signed v hv
    simp only [hbytes, hpacked, bind, Except.bind, placed, packedBytes_length, hn]
    split
    · rfl
    · split
      · rfl
      · rename_i hroom
        rw [hpack dst start (Nat.not_lt.mp hroom)]
        rfl
  · obtain ⟨rfl, hneg⟩ : signed = false ∧ v < 0 := by
      rwa [Classical.not_imp, Int.not_le] at hv
    rw [packValue_error hneg, magnitudeBytesForPack, if_pos ⟨rfl, hneg⟩]
    rfl

/-! ## The result -/

/-- The mode has the value: the unsigned one has no negative numbers. -/
def Representable (signed : Bool) (v : ℤ) : Prop := signed = true ∨ 0 ≤ v

theorem representable_of_packValue {signed : Bool} {v : ℤ} (h : packValue signed v = .ok encoded) :
    Representable signed v := by
  cases signed with
  | true => exact .inl rfl
  | false =>
    refine .inr (Int.not_lt.mp fun hneg => ?_)
    rw [packValue_error hneg] at h
    cases h

/-- The bytes around those that were put in are the old ones. -/
theorem getElem?_placed {start i : ℕ} (hroom : start + encoded.length ≤ dst.length)
    (hi : i < start ∨ start + encoded.length ≤ i) :
    (dst.take start ++ encoded ++ dst.drop (start + encoded.length))[i]? = dst[i]? := by
  have hlength : (dst.take start).length = start := List.length_take_of_le (by omega)
  rcases hi with hbefore | hafter
  · rw [List.append_assoc, List.getElem?_append_left (by omega), List.getElem?_take_of_lt hbefore]
  · rw [List.getElem?_append_right (by rw [List.length_append]; omega), List.length_append, hlength,
      List.getElem?_drop]
    congr 1
    omega

/-- **`pack_value_into`**, for every mode, value, buffer and start index: it never panics.  It
succeeds when the mode has the value and there is room for the encoding of `pack_value`, which then
stands at the start index with every other byte unchanged; a failed call changes nothing.
SOURCE: tools.rs:143-166, 220-282; packet.rs:94-105 -/
theorem packValueInto_inPlace (signed : Bool) (v : ℤ) (dst : List UInt8) (start : ℕ) :
    ∃ result dst', packValueIntoInPlace signed v dst start = some (result, dst') ∧
      (∀ n, result = .ok n ↔ Representable signed v ∧
        ∃ encoded, packValue signed v = .ok encoded ∧ encoded.length = n ∧
          start + n ≤ dst.length) ∧
      (∀ n, result = .ok n → packValue signed v = .ok ((dst'.drop start).take n) ∧
        dst'.length = dst.length ∧ ∀ i, i < start ∨ start + n ≤ i → dst'[i]? = dst[i]?) ∧
      ∀ e, result = .error e → dst' = dst := by
  rw [packValueIntoInPlace_eq, inBuffer_packValueInto]
  rcases placed_cases (packValue signed v) dst start with
    ⟨encoded, hpacked, hroom, hplaced⟩ | ⟨hnone, e, hplaced⟩
  · have hlength : (dst.take start).length = start := List.length_take_of_le (by omega)
    refine ⟨_, _, congrArg some hplaced, fun n => ?_, fun n h => ?_, by simp⟩
    · constructor
      · rintro ⟨⟩
        exact ⟨representable_of_packValue hpacked, encoded, hpacked, rfl, hroom⟩
      · rintro ⟨-, encoded', hpacked', rfl, -⟩
        rw [Except.ok.inj (hpacked.symm.trans hpacked')]
    · cases h
      refine ⟨?_, ?_, fun i hi => getElem?_placed hroom hi⟩
      · rw [List.append_assoc, List.drop_left' hlength, List.take_left, hpacked]
      · rw [List.length_append, List.length_append, hlength, List.length_drop]
        omega
  · refine ⟨_, _, congrArg some hplaced, fun n => ?_, by simp, fun _ _ => rfl⟩
    constructor
    · intro h
      cases h
    · rintro ⟨-, encoded, hpacked, rfl, hroom⟩
      exact absurd hroom (Nat.not_le.mpr (hnone encoded hpacked))

end Uartbus.Analysis

import Uartbus.Interface.FrameHistory

/-!
# Frames in the receive buffer

The buffer holds what is left of the frame that is being received after each overflow has
emptied it (`keptPart`), and this is the whole frame exactly up to `MAX_PACKET_SIZE` bytes.
`Buffered` says so of a host whose `dispatch` does not return in the middle of a frame; from it
follow what `try_dispatch_received_packet` can accept and what is there at a `receive_end`.
-/

set_option autoImplicit false

namespace Uartbus.Analysis

open Lib Interface Model

variable {build : HostBuild}

/-! ## The buffer and the frame -/

/-- What is left of the bytes of a frame: every byte that finds the buffer full empties it. -/
def keptPart (build : HostBuild) (bytes : Bytes) : Bytes :=
  bytes.drop (bytes.length / (build.maxPacketSize + 1) * (build.maxPacketSize + 1))

theorem keptPart_nil : keptPart build [] = [] := List.drop_nil

theorem length_keptPart (bytes : Bytes) :
    (keptPart build bytes).length = bytes.length % (build.maxPacketSize + 1) := by
  have hdiv := Nat.div_add_mod' bytes.length (build.maxPacketSize + 1)
  unfold keptPart
  rw [List.length_drop]
  omega

/-- A frame that fits is kept. -/
theorem keptPart_of_le {bytes : Bytes} (h : bytes.length ≤ build.maxPacketSize) :
    keptPart build bytes = bytes := by
  unfold keptPart
  rw [Nat.div_eq_of_lt (Nat.lt_succ_of_le h), Nat.zero_mul, List.drop_zero]

/-- One more byte of the frame. -/
theorem keptPart_concat (bytes : Bytes) (b : UInt8) :
    keptPart build (bytes ++ [b]) =
      if (keptPart build bytes).length = build.maxPacketSize then []
      else keptPart build bytes ++ [b] := by
  have hdiv := Nat.div_add_mod' bytes.length (build.maxPacketSize + 1)
  have hmod : bytes.length % (build.maxPacketSize + 1) < build.maxPacketSize + 1 :=
    Nat.mod_lt _ (Nat.succ_pos _)
  rw [length_keptPart]
  split
  next hfull =>
    -- the byte completes a multiple of the size, and everything is dropped
    have hlength : (bytes ++ [b]).length % (build.maxPacketSize + 1) = 0 := by
      rw [List.length_append, List.length_singleton, Nat.add_mod, hfull]
      simp
    apply List.eq_nil_of_length_eq_zero
    rw [length_keptPart, hlength]
  next hroom =>
    have hsame : (bytes ++ [b]).length / (build.maxPacketSize + 1) =
        bytes.length / (build.maxPacketSize + 1) := by
      rw [List.length_append, List.length_singleton]
      apply Nat.div_eq_of_lt_le
      · omega
      · rw [Nat.succ_mul]
        omega
    unfold keptPart
    rw [hsame, List.drop_append_of_le_length (Nat.div_mul_le_self _ _)]

/-! ## The invariant -/

/-- What the callbacks say is in the buffer.  A frame that was received may be gone already, when
`dispatch` has returned after its end. -/
structure Buffered (build : HostBuild) (r : Reception) : Prop where
  receiving : ∀ bytes, (frameView r.seen).current = some bytes →
    r.host.received = false ∧ r.host.receivedData = keptPart build bytes
  received : r.host.received = true → ∃ frame, (frameView r.seen).last = some frame ∧
    (r.host.receivedData = [] ∨ r.host.receivedData = keptPart build frame)

theorem buffered_initial : Buffered build Reception.initial :=
  ⟨fun _ h => (by cases h), fun h => (by cases h)⟩

variable {r : Reception}

/-- A byte of the frame is stored. -/
theorem Buffered.byte (h : Buffered build r) {b : UInt8}
    (horder : InLinkOrder (frameView r.seen) (.byte b)) :
    Buffered build { r with
      host := r.host.ubRecByte build b, seen := r.seen ++ [.byte b] } := by
  have hview : (frameView (r.seen ++ [.byte b])) = (frameView r.seen).next (.byte b) :=
    frameView_concat r.seen (.byte b)
  have hsame : (r.host.ubRecByte build b).received = r.host.received := by
    unfold HostReceive.ubRecByte
    split <;> rfl
  refine ⟨fun bytes hbytes => ?_, fun hreceived => ?_⟩
  · rw [hview] at hbytes
    obtain ⟨before, hbefore, rfl⟩ := Option.map_eq_some_iff.mp hbytes
    obtain ⟨hnot, hdata⟩ := h.receiving before hbefore
    refine ⟨hsame.trans hnot, ?_⟩
    rw [keptPart_concat, ← hdata]
    unfold HostReceive.ubRecByte
    split <;> rfl
  · -- a byte outside of a frame comes only before the first frame
    have hreceived' : r.host.received = true := hsame.symm.trans hreceived
    obtain ⟨frame, hlast, -⟩ := h.received hreceived'
    rcases horder with hopen | hnone
    · obtain ⟨bytes, hbytes⟩ := Option.ne_none_iff_exists'.mp hopen
      rw [(h.receiving bytes hbytes).1] at hreceived'
      cases hreceived'
    · rw [hnone] at hlast
      cases hlast

/-- A frame starts or ends. -/
theorem Buffered.event (h : Buffered build r) {e : UartbusEvent}
    (horder : InLinkOrder (frameView r.seen) (.event e)) :
    Buffered build { r with host := r.host.ubEvent e, seen := r.seen ++ [.event e] } := by
  have hview : frameView (r.seen ++ [.event e]) = (frameView r.seen).next (.event e) :=
    frameView_concat r.seen (.event e)
  cases e with
  | nothing | sendStart | collisionEnd =>
    refine ⟨fun bytes hbytes => ?_, fun hreceived => ?_⟩
    · rw [hview] at hbytes
      exact h.receiving bytes hbytes
    · rw [hview]
      exact h.received hreceived
  | collisionStart | sendEnd =>
    refine ⟨fun bytes hbytes => ?_, fun hreceived => ?_⟩
    · rw [hview] at hbytes
      cases hbytes
    · cases hreceived
  | receiveStart =>
    refine ⟨fun bytes hbytes => ?_, fun hreceived => ?_⟩
    · rw [hview] at hbytes
      cases hbytes
      exact ⟨rfl, keptPart_nil.symm⟩
    · cases hreceived
  | receiveEnd =>
    obtain ⟨frame, hframe⟩ := Option.ne_none_iff_exists'.mp (horder rfl)
    refine ⟨fun bytes hbytes => ?_, fun _ => ⟨frame, ?_, .inr (h.receiving frame hframe).2⟩⟩
    · rw [hview] at hbytes
      cases hbytes
    · rw [hview]
      exact hframe

theorem Buffered.tryDispatch (h : Buffered build r) {dispatching : Bool} :
    Buffered build { r with
      host := (r.host.tryDispatchReceivedPacket build).1, dispatching := dispatching } := by
  unfold HostReceive.tryDispatchReceivedPacket
  split
  next hreceived =>
    refine ⟨fun bytes hbytes => ?_, fun hreceived' => ?_⟩
    · rw [(h.receiving bytes hbytes).1] at hreceived
      cases hreceived
    · dsimp only at hreceived'
      split at hreceived' <;> cases hreceived'
  next => exact ⟨h.receiving, h.received⟩

theorem Buffered.returns (h : Buffered build r) (hclear : ReturnsClear (frameView r.seen)) :
    Buffered build { r with
      host := { r.host with receivedData := [] }, dispatching := false } := by
  refine ⟨fun bytes hbytes => ?_, fun hreceived => ?_⟩
  · rcases hclear with hnone | hempty
    · rw [hnone] at hbytes
      cases hbytes
    · rw [hempty] at hbytes
      cases hbytes
      exact ⟨(h.receiving [] hempty).1, keptPart_nil.symm⟩
  · obtain ⟨frame, hlast, -⟩ := h.received hreceived
    exact ⟨frame, hlast, .inl rfl⟩

theorem Buffered.step {r' : Reception} {a : ReceptionAction} (h : Buffered build r)
    (hundisturbed : Undisturbed r a) (hstep : receptionStep build r a = some r') :
    Buffered build r' := by
  cases a with
  | callback c =>
    obtain rfl := Option.some.inj hstep
    cases c with
    | byte b => exact h.byte hundisturbed
    | event e => exact h.event hundisturbed
  | tryDispatch =>
    simp only [receptionStep] at hstep
    split at hstep
    · cases hstep
    · obtain rfl := Option.some.inj hstep
      exact h.tryDispatch
  | returns =>
    simp only [receptionStep] at hstep
    split at hstep
    · obtain rfl := Option.some.inj hstep
      exact h.returns hundisturbed
    · cases hstep

theorem buffered_run {acts : List ReceptionAction}
    (hrun : run (receptionStep build) Reception.initial acts = some r)
    (hundisturbed : Along (receptionStep build) Undisturbed Reception.initial acts) :
    Buffered build r :=
  run_invariant (fun _ _ _ hr hP hstep => hr.step hP hstep) buffered_initial hundisturbed hrun

/-! ## What is dispatched -/

theorem decodeReceived_nil (req : RpcRequest) : decodeReceived [] ≠ .request req := by
  have hshort : decodeReceived [] = .short := rfl
  rw [hshort]
  simp

/-- **Only whole frames are dispatched**, as long as frames fit into the buffer and `dispatch`
does not return in the middle of one: a packet that `try_dispatch_received_packet` accepts is
the last frame, from its `receive_start` to its `receive_end`.
SOURCE: ub_uartbus.c:15-48, ub_bootloader.c:504-567 -/
theorem dispatched_whole_frame (build : HostBuild) (acts : List ReceptionAction) (r : Reception)
    (hrun : run (receptionStep build) Reception.initial acts = some r)
    (hundisturbed : Along (receptionStep build) Undisturbed Reception.initial acts)
    (hfits : ∀ frame, (frameView r.seen).last = some frame →
      frame.length ≤ build.maxPacketSize)
    (req : RpcRequest) (hreceived : r.host.received = true)
    (haccepts : decodeReceived r.host.receivedData = .request req) :
    (frameView r.seen).last = some r.host.receivedData := by
  obtain ⟨frame, hlast, hempty | hkept⟩ := (buffered_run hrun hundisturbed).received hreceived
  · rw [hempty] at haccepts
    exact absurd haccepts (decodeReceived_nil req)
  · rw [hlast, hkept, keptPart_of_le (hfits frame hlast)]

/-- The callbacks of one frame. -/
def frameActions (bytes : Bytes) : List ReceptionAction :=
  .callback (.event .receiveStart) ::
    (bytes.map fun b => .callback (.byte b)) ++ [.callback (.event .receiveEnd)]

/-- A host at address 12 with packets of at most eight bytes. -/
def smallHost : HostBuild := { maxPacketSize := 8, busAddress := 12, max_lt := by decide }

/-- A packet of four bytes from address 5. -/
def smallPacket : Bytes := [12, 5, 16, 217]

/-- The one frame of `smallPacket` is dispatched as it came. -/
theorem dispatched_whole_frame_small :
    ∃ r, run (receptionStep smallHost) Reception.initial (frameActions smallPacket) = some r ∧
      (r.host.tryDispatchReceivedPacket smallHost).2.isSome = true ∧
      (frameView r.seen).last = some r.host.receivedData := by
  obtain ⟨r, hrun, hreceived, hdata, hlast⟩ :
      ∃ r, run (receptionStep smallHost) Reception.initial (frameActions smallPacket) = some r ∧
        r.host.received = true ∧ r.host.receivedData = smallPacket ∧
        (frameView r.seen).last = some smallPacket := ⟨_, rfl, rfl, rfl, rfl⟩
  have hdecoded : decodeReceived r.host.receivedData =
      .request ⟨12, 5, [16], 0, by decide⟩ := by
    rw [hdata]
    decide +kernel
  refine ⟨r, hrun, ?_, dispatched_whole_frame smallHost _ r hrun (by decide +kernel) ?_ _
    hreceived hdecoded⟩
  · unfold HostReceive.tryDispatchReceivedPacket
    rw [if_pos hreceived, hdecoded]
    rfl
  · intro frame hframe
    rw [hlast] at hframe
    cases hframe
    decide

/-- Nine bytes and the packet behind them in one frame: the packet is dispatched. -/
theorem dispatched_part_of_frame :
    ∃ r, run (receptionStep smallHost) Reception.initial
        (frameActions (List.replicate 9 0 ++ smallPacket)) = some r ∧
      (frameView r.seen).last = some (List.replicate 9 0 ++ smallPacket) ∧
      r.host.receivedData = smallPacket ∧
      (r.host.tryDispatchReceivedPacket smallHost).2.isSome = true :=
  ⟨_, rfl, rfl, rfl, by decide +kernel⟩

/-! ## While `dispatch` is running -/

/-- **A frame that arrives during dispatch is not damaged**, as long as `dispatch` does not
return between its first byte and its end: at the `receive_end` of a frame that fits into the
buffer, the buffer holds exactly the frame.
SOURCE: ub_bootloader.c:538-567, ub_uartbus.c:15-48 -/
theorem frame_kept_at_end (build : HostBuild) (acts : List ReceptionAction) (r r' : Reception)
    (hrun : run (receptionStep build) Reception.initial acts = some r)
    (hundisturbed : Along (receptionStep build) Undisturbed Reception.initial acts)
    (frame : List UInt8) (hframe : (frameView r.seen).current = some frame)
    (hfits : frame.length ≤ build.maxPacketSize)
    (hend : receptionStep build r (.callback (.event .receiveEnd)) = some r') :
    r'.host.receivedData = frame ∧ (r'.host.received = true ↔ frame ≠ []) := by
  obtain ⟨-, hdata⟩ := (buffered_run hrun hundisturbed).receiving frame hframe
  rw [keptPart_of_le hfits] at hdata
  obtain rfl := Option.some.inj hend
  refine ⟨hdata, ?_⟩
  show decide (0 ≠ r.host.receivedData.length) = true ↔ frame ≠ []
  rw [hdata, decide_eq_true_iff, ← List.length_pos_iff]
  omega

/-- A packet is being dispatched when the frame 1, 2 starts. -/
def duringDispatch : List ReceptionAction :=
  frameActions smallPacket ++ [.tryDispatch, .callback (.event .receiveStart)]

/-- `dispatch` returns before the first byte of the frame. -/
theorem frame_kept_at_end_late_bytes :
    ∃ r r', run (receptionStep smallHost) Reception.initial
        (duringDispatch ++ [.returns, .callback (.byte 1), .callback (.byte 2)]) = some r ∧
      receptionStep smallHost r (.callback (.event .receiveEnd)) = some r' ∧
      r'.host.receivedData = [1, 2] := by
  refine exists₂_eq_some (Q := fun r => (frameView r.seen).current = some [1, 2])
    (by decide +kernel) fun r hrun hcurrent => ?_
  exact ⟨_, rfl, (frame_kept_at_end smallHost _ r _ hrun (by decide +kernel) [1, 2] hcurrent
    (by decide) rfl).1⟩

/-- `dispatch` returns after the first byte of the frame: at the end of the frame only the second
byte is there. -/
theorem frame_damaged_by_return :
    ∃ r, run (receptionStep smallHost) Reception.initial
        (duringDispatch ++ [.callback (.byte 1), .returns, .callback (.byte 2),
          .callback (.event .receiveEnd)]) = some r ∧
      (frameView r.seen).last = some [1, 2] ∧ r.host.receivedData = [2] :=
  exists_eq_some (by decide +kernel) fun _ _ h => h

end Uartbus.Analysis

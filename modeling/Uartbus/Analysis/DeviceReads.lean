import Uartbus.Analysis.FlashProgramming
import Uartbus.Analysis.HandlerAnswers

/-!
# A device and the packets it receives

`readsOnlyRequest_iff` puts the reads of a packet and those of its request together, for the packets
of every transport: which of them make a device read memory that is not theirs.
-/

set_option autoImplicit false

namespace Uartbus.Analysis

open Lib Model

variable {build : HostBuild} {req : RpcRequest}

/-! ## The packets of the transports -/

/-- A packet that `try_dispatch_received_packet` takes up: on the bus, with a direct connection, or
on the standard input of the Linux host. -/
inductive TakenUp (build : HostBuild) : Bytes → Prop where
  | bus {acts : List ReceptionAction} {r : Reception}
      (hrun : run (receptionStep build) Reception.initial acts = some r)
      (hidle : r.dispatching = false) (hreceived : r.host.received = true) :
      TakenUp build r.host.receivedData
  | direct {acts : List DirectAction} {s : HostReceive}
      (hrun : run (directStep build) HostReceive.initial acts = some s)
      (hreceived : s.received = true) : TakenUp build s.receivedData
  | linux (numbers : List ℤ) : TakenUp build (ubReadStdin build numbers).receivedData

theorem tryDispatch_receivedData (build : HostBuild) (s : HostReceive) :
    (s.tryDispatchReceivedPacket build).1.receivedData = s.receivedData ∨
      (s.tryDispatchReceivedPacket build).1.receivedData = [] := by
  unfold HostReceive.tryDispatchReceivedPacket
  split
  · split <;> simp
  · exact .inl rfl

/-- What is received stays within the buffer. -/
theorem receptionStep_length (r : Reception) (a : ReceptionAction) (r' : Reception)
    (h : r.host.receivedData.length ≤ build.maxPacketSize)
    (hstep : receptionStep build r a = some r') :
    r'.host.receivedData.length ≤ build.maxPacketSize := by
  cases a with
  | callback c =>
    obtain rfl := Option.some.inj hstep
    cases c with
    | byte b =>
      simp only [HostReceive.callback, HostReceive.ubRecByte]
      split
      · exact Nat.zero_le _
      · simp only [List.length_append, List.length_singleton]
        omega
    | event e =>
      simp only [HostReceive.callback, HostReceive.ubEvent]
      split <;> split <;> simp [h]
  | tryDispatch =>
    simp only [receptionStep] at hstep
    split at hstep
    · simp at hstep
    · obtain rfl := Option.some.inj hstep
      rcases tryDispatch_receivedData build r.host with hsame | hempty
      · simpa only [hsame] using h
      · simp [hempty]
  | returns =>
    simp only [receptionStep] at hstep
    split at hstep
    · obtain rfl := Option.some.inj hstep
      exact Nat.zero_le _
    · simp at hstep

/-- A buffer of size 0 is written to as well. -/
theorem directStep_length (s : HostReceive) (a : DirectAction) (s' : HostReceive)
    (h : s.receivedData.length ≤ build.maxPacketSize ∨ s.receivedData.length ≤ 1)
    (hstep : directStep build s a = some s') :
    s'.receivedData.length ≤ build.maxPacketSize ∨ s'.receivedData.length ≤ 1 := by
  cases a with
  | byte data =>
    obtain rfl := Option.some.inj hstep
    unfold HostReceive.ubOutRecByte
    split
    · exact h
    split
    · exact h
    -- the buffer that the byte is stored in
    by_cases hfull : s.receivedData.length ≥ build.maxPacketSize
    · simp only [if_pos hfull]
      split <;> split <;> simp
    · have hroom : s.receivedData.length + 1 ≤ build.maxPacketSize := by omega
      simp only [if_neg hfull]
      split <;> split <;> simp [hroom, h]
  | manage =>
    obtain rfl := Option.some.inj hstep
    rcases tryDispatch_receivedData build s with hsame | hempty
    · rwa [hsame]
    · simp [hempty]

theorem TakenUp.length_lt {data : Bytes} (h : TakenUp build data) : data.length < 256 := by
  have hmax := build.max_lt
  cases h with
  | @bus acts r hrun =>
    have := run_invariant_all (I := fun r : Reception =>
      r.host.receivedData.length ≤ build.maxPacketSize) receptionStep_length (Nat.zero_le _) hrun
    omega
  | @direct acts s hrun =>
    have := run_invariant_all (I := fun s : HostReceive =>
      s.receivedData.length ≤ build.maxPacketSize ∨ s.receivedData.length ≤ 1)
      directStep_length (.inl (Nat.zero_le _)) hrun
    omega
  | linux numbers =>
    have := List.length_take_le build.maxPacketSize numbers
    simp only [ubReadStdin, List.length_map]
    omega

/-- `dispatch` is called with the request. -/
def Dispatches (d : DeviceBuild) (data : Bytes) (outside : ℤ → UInt8) (req : RpcRequest) :
    Prop :=
  (readReceived data.length).value (arrayIn data outside) = .request req ∧
    (req.toAddress < 1 ∨ d.host.busAddress.toInt = req.toAddress)

/-- A packet that is taken up is read inside of the buffer, its request inside of the payload, and
one that is too short is answered with an error.  `outside` stands around the buffer and `stack`
around the payload. -/
structure ReadsOnlyRequest (d : DeviceBuild) (impl : DeviceImpl) (s : DeviceState d.platform)
    (data : Bytes) (outside stack : ℤ → UInt8) : Prop where
  buffer : Peek.ReadsIn (InBounds data.length) (readReceived data.length) (arrayIn data outside)
  payload : ∀ req, Dispatches d data outside req →
    Peek.ReadsIn (InBounds req.payload.length) (Device.dispatch impl req.head s)
      (arrayIn req.payload stack)
  answered : ∀ req, Dispatches d data outside req → 0 ≤ req.fromAddress → TooShort req.payload →
    AnsweredByError req s
      ((Device.dispatch impl req.head s).value (arrayIn req.payload stack))

theorem shortReadCode_iff (payload : Bytes) (stack : ℤ → UInt8) :
    ShortReadCode payload ↔ arrayIn payload stack 0 = 2 ∧ arrayIn payload stack 1 = 3 ∧
      1 < payload.length ∧ payload.length < 5 := by
  unfold ShortReadCode
  by_cases hlen : 1 < payload.length
  · have hfirst : arrayIn payload stack 0 = payload[0] := arrayIn_natCast (i := 0) (by omega) stack
    have hsecond : arrayIn payload stack 1 = payload[1] := arrayIn_natCast (i := 1) hlen stack
    rw [hfirst, hsecond]
    rcases payload with _ | ⟨ns, _ | ⟨f, rest⟩⟩
    · simp at hlen
    · simp at hlen
    · simp [and_assoc]
  · refine iff_of_false (fun h => ?_) fun h => hlen h.2.2.1
    have := congrArg List.length h.1
    rw [List.length_take] at this
    simp only [List.length_cons, List.length_nil] at this
    omega

section Dispatches

variable {d : DeviceBuild} {data : Bytes} {outside : ℤ → UInt8}

theorem Dispatches.procPtr (hne : data ≠ []) (hmax : data.length < 256)
    (h : Dispatches d data outside req) : req.procPtr = 0 := by
  have hreq := h.1
  rw [readReceived_value hne hmax.le] at hreq
  rw [(decodeReceived_request hreq).2.2.2.2]
  rfl

/-- The requests of single devices are those of the packets that bring one. -/
theorem dispatches_iff (hne : data ≠ []) (hmax : data.length < 256) {payload : Bytes} :
    (∃ req, Dispatches d data outside req ∧ 0 ≤ req.fromAddress ∧ req.payload = payload) ↔
      Brings d.host.busAddress.toInt data payload := by
  rw [← brings_iff hmax.le]
  unfold Dispatches
  rw [readReceived_value hne hmax.le]
  simp only [and_assoc]

/-- The two requests that the property rules out. -/
theorem ReadsOnlyRequest.request_ok {impl : DeviceImpl} {s : DeviceState d.platform}
    {stack : ℤ → UInt8} (h : ReadsOnlyRequest d impl s data outside stack)
    (hreq : Dispatches d data outside req) (hptr : req.procPtr = 0)
    (hsender : 0 ≤ req.fromAddress) :
    req.payload ≠ [1, 2] ∧ ¬ ShortReadCode req.payload := by
  refine ⟨fun hled => ?_, fun hshort => ?_⟩
  · obtain ⟨err, -, used, -, hanswer⟩ :=
      h.answered req hreq hsender (by rw [hled]; exact ⟨.inl rfl, by decide⟩)
    rw [dispatch_value_function impl s hled hptr hsender (by decide) rfl rfl] at hanswer
    simp [Device.rpcBasicUserLed, RpcRequest.head, hled] at hanswer
  · obtain ⟨hns, hfunc, hlow, hhigh⟩ := (shortReadCode_iff req.payload stack).mp hshort
    have hlong := (dispatch_readsIn_iff impl s _ hptr).mp (h.payload req hreq)
    have : 5 ≤ req.payload.length := hlong hsender hns hfunc hlow
    omega

end Dispatches

/-- **Reads of a device.**  Exactly when the packet has a byte and does not bring a request for
`user_led` without a value or for `read_code` without an address and a length, everything that is
read belongs to it and a short request is answered with an error.
SOURCE: ub_bootloader.c:63-219, 504-567; direct.c:78-122; ub_linux.c:51-80 -/
theorem readsOnlyRequest_iff (d : DeviceBuild) (impl : DeviceImpl) (s : DeviceState d.platform)
    (data : List UInt8) (htaken : TakenUp d.host data) (outside stack : ℤ → UInt8) :
    ReadsOnlyRequest d impl s data outside stack ↔
      data ≠ [] ∧ ∀ payload, Brings d.host.busAddress.toInt data payload →
        payload ≠ [1, 2] ∧ ¬ ShortReadCode payload := by
  have hmax := htaken.length_lt
  have hbuffer := readReceived_readsIn_iff hmax.le (arrayIn data outside)
  constructor
  · intro h
    have hne : data ≠ [] := List.ne_nil_of_length_pos (hbuffer.mp h.buffer)
    refine ⟨hne, fun payload hbrings => ?_⟩
    obtain ⟨req, hreq, hsender, rfl⟩ := (dispatches_iff hne hmax).mpr hbrings
    exact h.request_ok hreq (hreq.procPtr hne hmax) hsender
  · rintro ⟨hne, hgood⟩
    refine ⟨hbuffer.mpr (List.length_pos_of_ne_nil hne), fun req hreq => ?_,
      fun req hreq hsender hshort => ?_⟩
    · refine (dispatch_readsIn_iff impl s _ (hreq.procPtr hne hmax)).mpr ?_
      intro hsender hns hfunc hlow
      have hlong := (hgood _ ((dispatches_iff hne hmax).mp ⟨req, hreq, hsender, rfl⟩)).2
      rw [shortReadCode_iff req.payload stack] at hlong
      by_contra hlt
      exact hlong ⟨hns, hfunc, hlow, not_le.mp hlt⟩
    · obtain ⟨hled, hread⟩ := hgood _ ((dispatches_iff hne hmax).mp ⟨req, hreq, hsender, rfl⟩)
      have htarget : req.toAddress < 1 ∨ req.toAddress = d.platform.busAddress := by
        rw [d.same_address]
        exact hreq.2.imp_right Eq.symm
      exact answers_short impl s (hreq.procPtr hne hmax) htarget hsender hshort hled hread

/-- The device at address 2 with pages of four bytes, and packets of up to 64 bytes. -/
def smallDevice : DeviceBuild :=
  { host := { maxPacketSize := 64, busAddress := 2, max_lt := by decide }
    platform := smallPlatform
    same_address := rfl }

/-- Its functions return zeros. -/
def idleImpl : DeviceImpl :=
  { setUserLed := fun _ => 0
    micros := 0
    rando := 0
    hasApp := false
    readCode := fun _ size => Vector.replicate size 0 }

/-- The device after power on. -/
def idleState : DeviceState smallDevice.platform :=
  { flash := Flash.powerOn (Vector.replicate 4 0) true, resetFlag := 0 }

/-- A ping on the standard input of the Linux host. -/
theorem readsOnlyRequest_ping :
    TakenUp smallDevice.host [2, 10, 1, 0, 0xa9] ∧
      ReadsOnlyRequest smallDevice idleImpl idleState [2, 10, 1, 0, 0xa9] (fun _ => 0)
        fun _ => 0 := by
  have htaken : TakenUp smallDevice.host [2, 10, 1, 0, 0xa9] := .linux [2, 10, 1, 0, 0xa9]
  refine ⟨htaken, (readsOnlyRequest_iff smallDevice idleImpl idleState _ htaken _ _).mpr
    ⟨by simp, fun payload hbrings => ?_⟩⟩
  obtain ⟨req, hreq, -, -, rfl⟩ := (brings_iff (by decide)).mpr hbrings
  have hping : decodeReceived [2, 10, 1, 0, 0xa9] =
      .request ⟨2, 10, [1, 0], 0, by decide⟩ := by decide +kernel
  obtain rfl := Decoded.request.inj (hping.symm.trans hreq)
  exact ⟨by decide, fun h => absurd h.1 (by decide)⟩

/-- An empty packet of the direct connection (the bytes ff 00) is compared with the byte before the
buffer; a `read_code` request without parameters is answered with the bytes behind it, and a
`user_led` request without a value is not answered. -/
theorem reads_behind_request :
    (TakenUp smallDevice.host [] ∧
      ¬ ReadsOnlyRequest smallDevice idleImpl idleState [] (fun _ => 0) fun _ => 0) ∧
    (TakenUp smallDevice.host [2, 10, 2, 3, 0x1e] ∧
      ¬ ReadsOnlyRequest smallDevice idleImpl idleState [2, 10, 2, 3, 0x1e] (fun _ => 0)
        (fun _ => 0xaa) ∧
      (Device.dispatch idleImpl ⟨2, 10, 2, 0⟩ idleState).value (arrayIn [2, 3] fun _ => 0xaa) =
        .returned idleState [⟨10, 2, 0 :: 2 :: 3 :: 0xaa :: 0xaa :: List.replicate 32 0⟩]) ∧
    (TakenUp smallDevice.host [2, 10, 1, 2, 0x15] ∧
      ¬ ReadsOnlyRequest smallDevice idleImpl idleState [2, 10, 1, 2, 0x15] (fun _ => 0)
        fun _ => 0) := by
  refine ⟨⟨?_, fun h => ?_⟩, ⟨.linux [2, 10, 2, 3, 0x1e], fun h => ?_, by decide +kernel⟩,
    ⟨.linux [2, 10, 1, 2, 0x15], fun h => ?_⟩⟩
  · have hrun : run (directStep smallDevice.host) HostReceive.initial [.byte 0xff, .byte 0x00] =
        some ⟨true, [], false⟩ := by decide +kernel
    exact .direct hrun rfl
  · exact absurd ((readReceived_readsIn_iff (by decide) _).mp h.buffer) (by decide)
  · have hreq : Dispatches smallDevice [2, 10, 2, 3, 0x1e] (fun _ => 0)
        ⟨2, 10, [2, 3], 0, by decide⟩ := ⟨by decide +kernel, .inr (by decide)⟩
    exact (h.request_ok hreq rfl (by decide)).2 ⟨rfl, by decide⟩
  · have hreq : Dispatches smallDevice [2, 10, 1, 2, 0x15] (fun _ => 0)
        ⟨2, 10, [1, 2], 0, by decide⟩ := ⟨by decide +kernel, .inr (by decide)⟩
    exact (h.request_ok hreq rfl (by decide)).1 rfl

/-- **Nothing leaks.**  The answer to a request that is read inside of its bounds does not depend on
what stands around the payload.
SOURCE: ub_bootloader.c:63-380, 483-500; rpc.c:48-150 -/
theorem dispatch_value_congr {p : Platform} (impl : DeviceImpl) (s : DeviceState p)
    {req : RequestHead} {mem mem' : ℤ → UInt8} (hptr : req.procPtr = 0)
    (hlong : 0 ≤ req.fromAddress → mem 0 = 2 → mem 1 = 3 → 1 < req.size → 5 ≤ req.size)
    (hagree : ∀ i, InBounds req.size i → mem' i = mem i) :
    (Device.dispatch impl req s).value mem' = (Device.dispatch impl req s).value mem := by
  refine Peek.value_eq_of_agree _ fun i hi => hagree i ?_
  exact (dispatch_readsIn_iff impl s mem hptr).mpr hlong i hi

/-- A ping: what stands behind the request in the buffer does not matter. -/
theorem dispatch_value_congr_ping :
    (Device.dispatch idleImpl ⟨2, 10, 2, 0⟩ idleState).value (arrayIn [1, 0] fun _ => 0xaa) =
      (Device.dispatch idleImpl ⟨2, 10, 2, 0⟩ idleState).value (arrayIn [1, 0] fun _ => 0) := by
  refine dispatch_value_congr idleImpl idleState rfl (fun _ h => absurd h (by decide)) ?_
  rintro i ⟨hlow, hhigh⟩
  obtain rfl | rfl : i = 0 ∨ i = 1 := by dsimp only at hhigh; omega
  all_goals rfl

end Uartbus.Analysis

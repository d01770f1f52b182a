import Uartbus.Model.Service
import Uartbus.Analysis.HostPackets
import Uartbus.Analysis.RpcRoundTrip

/-!
# A remote call is a local call

On a bus that loses nothing the answer of a service to a request comes back to the transaction
that waits for it, behind the path of the request (`respond_answered`), so that a call returns
what the answer is read as (`call_returns`).  The namespaces on the way to the function take the
bytes of the path (`Selects`), whatever functions and parameters select them.
-/

set_option autoImplicit false

namespace Uartbus.Analysis

open Lib Model Interface

variable {result : Except RpcError (Option RpcValue)} {elements values : List RpcValue}
  {bytes fromField toField : Bytes} {t : ℕ × TransactionState} {request : ParsedUartBusPacket}
  {fromAddress toAddress : ℤ}

/-! ## Packets between two addresses -/

/-- The values of an `i32`. -/
def I32 (address : ℤ) : Prop := -2 ^ 31 ≤ address ∧ address < 2 ^ 31

theorem getValidPacket_appendCrc8 (body : Bytes) :
    getValidPacket (PacketAssembler.appendCrc8 body) = some body := by
  have hcrc : crc8Prefix (body ++ [crc8 body]) body.length = crc8 body := by
    rw [crc8, crc8Prefix, crc8Prefix, List.take_length, List.take_left]
  unfold getValidPacket PacketAssembler.appendCrc8
  simp [hcrc]

theorem toI32_of_range {address : ℤ} (default : ℤ) (h : I32 address) :
    ParsedUartBusPacket.toI32 address default = address :=
  if_pos h

/-- The addresses are read back, and the rest is the payload. -/
theorem parse_fields (hto : packValue true toAddress = .ok toField)
    (hfrom : packValue true fromAddress = .ok fromField) (htoRange : I32 toAddress)
    (hfromRange : I32 fromAddress) (payload : Bytes) :
    ParsedUartBusPacket.new (toField ++ fromField ++ payload) =
      .ok ⟨toField ++ fromField ++ payload, fromAddress, toAddress, payload⟩ := by
  have hread : ∀ {address : ℤ} {field : Bytes} (pre post : Bytes),
      packValue true address = .ok field →
        unpackValue true (pre ++ field ++ post) pre.length = .ok (address, field.length) := by
    intro address field pre post hfield
    obtain ⟨e, hpack, hunpack⟩ := unpackValue_packed true address (by simp)
    rw [Except.ok.inj (hfield.symm.trans hpack)]
    exact hunpack pre post true (.inl rfl)
  have hreadTo := hread [] (fromField ++ payload) hto
  have hreadFrom := hread toField payload hfrom
  rw [List.nil_append, List.length_nil, ← List.append_assoc] at hreadTo
  unfold ParsedUartBusPacket.new
  simp only [bind, Except.bind, pure, Except.pure, hreadTo, hreadFrom, ← List.length_append,
    List.drop_left, toI32_of_range _ htoRange, toI32_of_range _ hfromRange]

/-! ## The way to a function -/

section Call

variable {σ μ : Type} (services : UbService σ μ)

/-- The namespace that the functions on the way select: from a namespace, an index into the payload
and a state of the process, to those the next function is called with. -/
inductive Selects (payload : Bytes) : σ → ℕ → μ → σ → ℕ → μ → Prop
  | here (service : σ) (ep : ℕ) (memory : μ) : Selects payload service ep memory service ep memory
  | through {service next target : σ} {ep ep' : ℕ} {memory memory' memory'' : μ} {index : UInt8}
      {call : ServiceCall σ} {reader : PacketReader} (hindex : payload[ep]? = some index)
      (hcall : services.call service index ⟨payload.drop (ep + 1), 0⟩ memory =
        (some (call, reader), memory'))
      (hnext : call.result = .ok (.subNamespace next))
      (hrest : Selects payload next (ep + 1 + reader.ep) memory' target ep' memory'') :
      Selects payload service ep memory target ep' memory''

variable {services}

theorem serve_selects {service target : σ} {ep ep' : ℕ} {memory memory' : μ}
    (h : Selects services request.payload service ep memory target ep' memory') :
    UartbusServiceBridge.serve services request service ep memory =
      UartbusServiceBridge.serve services request target ep' memory' := by
  induction h with
  | here => rfl
  | through hindex hcall hnext _ ih =>
    obtain ⟨hlt, hget⟩ := List.getElem?_eq_some_iff.mp hindex
    rw [UartbusServiceBridge.serve, dif_pos hlt]
    simp only [hget, hcall, hnext]
    exact ih

/-- The values of the answer to a reply; none when nothing is answered. -/
def answerValues (call : ServiceCall σ) : Option (List RpcValue) :=
  match call.result with
  | .ok .void => some (if call.posix then [.u8 0] else [])
  | .ok (.value v) => some (if call.posix then [.u8 0, v] else [v])
  | .error (.posix errno) => if call.posix then some [.u8 errno] else none
  | .ok .noReturn | .ok (.subNamespace _) | .error (.internal _) => none

/-- A request is served by the function that its path selects. -/
structure Calls (services : UbService σ μ) (bridge : UartbusServiceBridge σ) (dev : UartBusDevice)
    (s : LosslessBus μ) (nsPath : Bytes) (index : UInt8) (params : Bytes)
    (call : ServiceCall σ) : Prop where
  device : I32 dev.address
  client : I32 s.client.fromAddress
  target : ∀ address ∈ bridge.targetAddress, address = dev.address
  path : bridge.path <+: nsPath
  /-- The namespaces on the way take the bytes of the path, and the last one has the function. -/
  selects : ∃ service memory reader memory',
    Selects services (nsPath ++ index :: params) bridge.service bridge.path.length s.memory service
        nsPath.length memory ∧
      services.call service index ⟨params, 0⟩ memory = (some (call, reader), memory')

/-- No transaction waits yet for an answer of the device that starts with the path. -/
def Unclaimed (bus : UartBus) (address : ℤ) (path : Bytes) : Prop :=
  ∀ t ∈ bus.pendingRequests, ∀ rest,
    t.2.tryAcceptResponse ⟨bus.fromAddress, address, 0 :: (path ++ rest)⟩ = false

variable {bridge : UartbusServiceBridge σ} {dev : UartBusDevice} {s : LosslessBus μ}
  {nsPath : Bytes} {index : UInt8} {params : Bytes} {call : ServiceCall σ}

/-- The last namespace calls the function and answers its values behind the path. -/
theorem serve_function {service : σ} {memory memory' : μ} {reader : PacketReader}
    (hpayload : request.payload = nsPath ++ index :: params)
    (hcall : services.call service index ⟨params, 0⟩ memory = (some (call, reader), memory'))
    (hvalues : answerValues call = some values) :
    UartbusServiceBridge.serve services request service nsPath.length memory =
      (UartbusServiceBridge.responsePacket request (nsPath.length + 1) values, memory') := by
  have hlt : nsPath.length < request.payload.length := by simp [hpayload]
  have hget : request.payload[nsPath.length] = index := by simp [hpayload]
  have hdrop : request.payload.drop (nsPath.length + 1) = params := by simp [hpayload]
  rw [UartbusServiceBridge.serve, dif_pos hlt]
  simp only [hget, hdrop, hcall]
  obtain ⟨posix, result⟩ := call
  cases result with
  | ok reply =>
    cases reply with
    | void | value v =>
      obtain rfl := Option.some.inj hvalues
      rfl
    | noReturn | subNamespace next => cases hvalues
  | error err =>
    cases err with
    | posix errno =>
      cases posix with
      | true =>
        obtain rfl := Option.some.inj hvalues
        rfl
      | false => cases hvalues
    | internal message => cases hvalues

theorem responsePacket_eq (request : ParsedUartBusPacket) (pathEnd : ℕ)
    (hbytes : appendElements values = .ok bytes) :
    ∃ toField fromField, packValue true request.fromAddress = .ok toField ∧
      packValue true request.toAddress = .ok fromField ∧
      UartbusServiceBridge.responsePacket request pathEnd values =
        .answered (PacketAssembler.appendCrc8
          (toField ++ fromField ++ 0 :: (request.payload.take pathEnd ++ bytes))) := by
  obtain ⟨toField, fromField, hto, hfrom, hwrite⟩ :=
    writeAddressing_eq request.toAddress request.fromAddress
  refine ⟨toField, fromField, hto, hfrom, ?_⟩
  have hbuilt : UartbusServiceBridge.buildResponse request pathEnd values =
      .ok (toField ++ fromField ++ 0 :: (request.payload.take pathEnd ++ bytes)) := by
    simp only [UartbusServiceBridge.buildResponse, bind, Except.bind, pure, Except.pure, hwrite,
      hbytes]
  unfold UartbusServiceBridge.responsePacket
  rw [hbuilt]

/-- What the service sends for the request of a transaction. -/
theorem feed_answered (h : Calls services bridge dev s nsPath index params call)
    (hvalues : answerValues call = some values) (hbytes : appendElements values = .ok bytes) :
    ∃ body toField fromField memory',
      toPacket dev.address s.client.fromAddress [.bytes (nsPath ++ [index] ++ params)] =
        .ok (PacketAssembler.appendCrc8 body) ∧
      packValue true s.client.fromAddress = .ok toField ∧
      packValue true dev.address = .ok fromField ∧
      bridge.feedPacket services body s.memory =
        (.answered (PacketAssembler.appendCrc8
          (toField ++ fromField ++ 0 :: (nsPath ++ [index] ++ bytes))), memory') := by
  obtain ⟨devField, clientField, hdev, hclient, hpacket⟩ :=
    toPacket_bytes dev.address s.client.fromAddress (nsPath ++ [index] ++ params)
  have hpayload : nsPath ++ [index] ++ params = nsPath ++ index :: params := by simp
  obtain ⟨service, memory, reader, memory', hselects, hcall⟩ := h.selects
  set request : ParsedUartBusPacket := ⟨devField ++ clientField ++ (nsPath ++ [index] ++ params),
    s.client.fromAddress, dev.address, nsPath ++ [index] ++ params⟩ with hrequest
  obtain ⟨toField, fromField, hto, hfrom, hanswer⟩ :=
    responsePacket_eq request (nsPath.length + 1) hbytes
  refine ⟨_, toField, fromField, memory', hpacket, hto, hfrom, ?_⟩
  have htake : request.payload.take (nsPath.length + 1) = nsPath ++ [index] := by
    exact List.take_left' (by simp)
  have htarget : bridge.targetAddress.any (fun a => decide (a ≠ dev.address)) = false := by
    rw [Option.any_eq_false]
    intro address haddress
    simpa using h.target address haddress
  have hprefix : bridge.path.isPrefixOf (nsPath ++ [index] ++ params) = true := by
    rw [List.isPrefixOf_iff_prefix, List.append_assoc]
    exact h.path.trans (List.prefix_append _ _)
  have hserve : UartbusServiceBridge.serve services request bridge.service bridge.path.length
      s.memory = (UartbusServiceBridge.responsePacket request (nsPath.length + 1) values,
        memory') := by
    rw [serve_selects (by rw [hrequest, hpayload]; exact hselects),
      serve_function (by rw [hrequest, hpayload]) hcall hvalues]
  unfold UartbusServiceBridge.feedPacket
  simp only [parse_fields hdev hclient h.device h.client, htarget, hprefix, if_true,
    Bool.false_eq_true, if_false]
  rw [← hrequest, hserve, hanswer, htake]

/-- A packet between two addresses goes to the first transaction that accepts it. -/
theorem receive_accepted {bus : UartBus} {payload : Bytes}
    (hto : packValue true toAddress = .ok toField)
    (hfrom : packValue true fromAddress = .ok fromField) (htoRange : I32 toAddress)
    (hfromRange : I32 fromAddress)
    (hfind : bus.pendingRequests.find?
      (fun t => t.2.tryAcceptResponse ⟨toAddress, fromAddress, payload⟩) = some t) :
    ∃ bus', bus.receive (PacketAssembler.appendCrc8 (toField ++ fromField ++ payload)) =
      (bus', .accepted t.1 payload) := by
  unfold UartBus.receive
  simp only [getValidPacket_appendCrc8, parse_fields hto hfrom htoRange hfromRange,
    ParsedUartBusPacket.packet, UartBus.processPacket, hfind]
  exact ⟨_, rfl⟩

/-- The transactions of the client when the answer comes: the one of the request is the last. -/
theorem find_registered (bus : UartBus) (address : ℤ) (path rest : Bytes) :
    (bus.register bus.fromAddress address path true).1.pendingRequests.find?
        (fun t => t.2.tryAcceptResponse ⟨bus.fromAddress, address, 0 :: (path ++ rest)⟩) =
      (bus.pendingRequests.find?
        (fun t => t.2.tryAcceptResponse ⟨bus.fromAddress, address, 0 :: (path ++ rest)⟩)).or
          (some (bus.nextId, ⟨address, bus.fromAddress, path, true⟩)) := by
  unfold UartBus.register
  simp [TransactionState.tryAcceptResponse]

/-- **One exchange.**  The answer of the function comes back to the transaction, unless an earlier
one takes it. -/
theorem respond_answered (h : Calls services bridge dev s nsPath index params call)
    (hvalues : answerValues call = some values) (hbytes : appendElements values = .ok bytes)
    (hfind : (s.client.register s.client.fromAddress dev.address
      (nsPath ++ [index]) true).1.pendingRequests.find? (fun t => t.2.tryAcceptResponse
        ⟨s.client.fromAddress, dev.address, 0 :: (nsPath ++ [index] ++ bytes)⟩) = some t) :
    (LosslessBus.respond services bridge dev
      ⟨nsPath ++ [index], nsPath ++ [index] ++ params, true⟩ s).1 =
        if t.1 = s.client.nextId then .response (0 :: (nsPath ++ [index] ++ bytes))
        else .timedOut := by
  obtain ⟨body, toField, fromField, memory', hpacket, hto, hfrom, hfeed⟩ :=
    feed_answered h hvalues hbytes
  obtain ⟨client', hreceive⟩ := receive_accepted hto hfrom h.client h.device hfind
  have hid : (s.client.register s.client.fromAddress dev.address (nsPath ++ [index]) true).2 =
      s.client.nextId := rfl
  unfold LosslessBus.respond
  simp only [hpacket, getValidPacket_appendCrc8, hfeed, hreceive, hid, if_true]
  by_cases htaker : t.1 = s.client.nextId
  · simp only [if_pos htaker]
  · simp only [if_neg htaker]

/-! ## What the call returns -/

/-- The call ends with the result. -/
def CallReturns (services : UbService σ μ) (bridge : UartbusServiceBridge σ) (dev : UartBusDevice)
    (s : LosslessBus μ) (nsPath : Bytes) (function : UbFunction) (params : List RpcValue)
    (result : Except RpcError (Option RpcValue)) : Prop :=
  ∃ s', (dev.call nsPath function params).exec (LosslessBus.respond services bridge dev) s =
    some (result, s')

variable {function : UbFunction} {values : List RpcValue}

/-- A call that waits for its answer returns what the answer is read as. -/
theorem call_returns (h : Calls services bridge dev s nsPath function.index params call)
    (hfree : Unclaimed s.client dev.address (nsPath ++ [function.index]))
    (hattempt : 0 < dev.retryCount) (hparams : appendElements elements = .ok params)
    (hret : function.ret ≠ .noReturn) (hvalues : answerValues call = some values)
    (hbytes : appendElements values = .ok bytes)
    (hresult : extractOrThrowResult function bytes = some result) :
    CallReturns services bridge dev s nsPath function elements result := by
  obtain ⟨attempts, hattempts⟩ : ∃ k, dev.retryCount = k + 1 := ⟨dev.retryCount - 1, by omega⟩
  have hnone : s.client.pendingRequests.find? (fun t => t.2.tryAcceptResponse
      ⟨s.client.fromAddress, dev.address, 0 :: (nsPath ++ [function.index] ++ bytes)⟩) = none := by
    rw [List.find?_eq_none]
    intro t ht
    rw [hfree t ht bytes]
    exact Bool.false_ne_true
  have hfind := find_registered s.client dev.address (nsPath ++ [function.index]) bytes
  rw [hnone, Option.none_or] at hfind
  have hanswer := respond_answered h hvalues hbytes hfind
  rw [if_pos rfl] at hanswer
  have hdrop : (0 :: (nsPath ++ [function.index] ++ bytes)).drop
      ((nsPath ++ [function.index]).length + 1) = bytes := by
    rw [List.drop_succ_cons, List.drop_left]
  refine ⟨(LosslessBus.respond services bridge dev
    ⟨nsPath ++ [function.index], nsPath ++ [function.index] ++ params, true⟩ s).2, ?_⟩
  unfold UartBusDevice.call
  simp only [hparams, hattempts, UartBusDevice.callLoop, Program.exec, hanswer, hdrop,
    hresult]

/-- How an answer with a value is read. -/
theorem extract_value {ty : RpcType} {v : RpcValue} (hret : function.ret = .value ty)
    (hv : HasType ty v) (hty : MayEnd ty) :
    ∃ bytes, appendElements (if function.posix then [.u8 0, v] else [v]) = .ok bytes ∧
      extractOrThrowResult function bytes = some (.ok (some v)) := by
  obtain ⟨bytes, hwrite, hread⟩ := readType_mayEnd ty v hty hv
  have hone : appendElements [v] = .ok (bytes ++ []) := appendElements_cons hwrite rfl
  cases hposix : function.posix with
  | true =>
    refine ⟨[0] ++ (bytes ++ []), appendElements_cons rfl hone, ?_⟩
    have hubyte := readUbyte_at [] (bytes ++ []) 0
    have hvalue := hread [0]
    simp only [List.nil_append, List.length_nil, Nat.zero_add] at hubyte
    simp only [List.length_singleton] at hvalue
    simp only [extractOrThrowResult, hposix, if_true, hubyte, hret, hvalue, ne_eq,
      not_true_eq_false, if_false]
  | false =>
    refine ⟨bytes ++ [], hone, ?_⟩
    have hvalue := hread []
    simp only [List.nil_append, List.length_nil] at hvalue
    simp only [extractOrThrowResult, hposix, Bool.false_eq_true, if_false, hret, hvalue]

/-- **A remote call is a local call.**  Whatever namespaces lead to the function: the call returns
the value that the function replies when it is of the declared type, nothing when it replies and
is declared void, and the error number of a posix function when an answer is waited for.
SOURCE: rpc/device.rs:92-205, rpc/service.rs:112-216, rpc/bus.rs:42-67 -/
theorem remote_call_eq_local (services : UbService σ μ) (bridge : UartbusServiceBridge σ)
    (dev : UartBusDevice) (s : LosslessBus μ) (nsPath : List UInt8) (function : UbFunction)
    (elements : List RpcValue) (params : List UInt8) (call : ServiceCall σ)
    (hattempt : 0 < dev.retryCount) (hparams : appendElements elements = .ok params)
    (hcalls : Calls services bridge dev s nsPath function.index params call)
    (hfree : Unclaimed s.client dev.address (nsPath ++ [function.index]))
    (hposix : function.posix = call.posix) :
    (∀ v ty, call.result = .ok (.value v) → function.ret = .value ty → HasType ty v → MayEnd ty →
      CallReturns services bridge dev s nsPath function elements (.ok (some v))) ∧
    (call.result = .ok .void → function.ret = .void →
      CallReturns services bridge dev s nsPath function elements (.ok none)) ∧
    (∀ errno, call.result = .error (.posix errno) → call.posix = true → errno ≠ 0 →
      function.ret ≠ .noReturn →
      CallReturns services bridge dev s nsPath function elements (.error (.posix errno))) := by
  refine ⟨fun v ty hresult hret hv hty => ?_, fun hresult hret => ?_,
    fun errno hresult hcall herrno hret => ?_⟩
  · obtain ⟨bytes, hbytes, hextract⟩ := extract_value hret hv hty
    refine call_returns hcalls hfree hattempt hparams (by simp [hret]) ?_ hbytes hextract
    rw [answerValues, hresult, hposix]
  · have hvalues : answerValues call = some (if function.posix then [.u8 0] else []) := by
      rw [answerValues, hresult, hposix]
    cases hcase : function.posix with
    | true =>
      rw [hcase] at hvalues
      refine call_returns hcalls hfree hattempt hparams (by simp [hret]) hvalues
        (appendElements_cons rfl rfl) ?_
      simp [extractOrThrowResult, hcase, hret, PacketReader.readUbyte]
    | false =>
      rw [hcase] at hvalues
      refine call_returns hcalls hfree hattempt hparams (by simp [hret]) hvalues rfl ?_
      simp [extractOrThrowResult, hcase, hret]
  · have hvalues : answerValues call = some [.u8 errno] := by
      rw [answerValues, hresult]
      simp [hcall]
    refine call_returns hcalls hfree hattempt hparams hret hvalues (appendElements_cons rfl rfl) ?_
    simp [extractOrThrowResult, hposix, hcall, PacketReader.readUbyte, herrno]

/-- What a call that is sent once makes of the outcome. -/
theorem call_outcome (hattempt : 0 < dev.retryCount)
    (hparams : appendElements elements = .ok params) (hsingle : function.retransmittable = false)
    (h : CallReturns services bridge dev s nsPath function elements result) :
    (function.ret = .noReturn → result = .ok none) ∧
      (function.ret ≠ .noReturn →
        (LosslessBus.respond services bridge dev
          ⟨nsPath ++ [function.index], nsPath ++ [function.index] ++ params, true⟩ s).1 =
            .timedOut →
            result = .error (.transaction dev.noResponse)) := by
  obtain ⟨attempts, hattempts⟩ : ∃ k, dev.retryCount = k + 1 := ⟨dev.retryCount - 1, by omega⟩
  obtain ⟨s', hexec⟩ := h
  unfold UartBusDevice.call at hexec
  constructor
  · intro hret
    have hsent : (LosslessBus.respond services bridge dev
        ⟨nsPath ++ [function.index], nsPath ++ [function.index] ++ params, false⟩ s).1 = .sent := by
      obtain ⟨_, _, -, -, hpacket⟩ :=
        toPacket_bytes dev.address s.client.fromAddress (nsPath ++ [function.index] ++ params)
      unfold LosslessBus.respond
      simp only [hpacket, Bool.false_eq_true, if_false]
    simp only [hparams, hret, hattempts, UartBusDevice.callLoop, Program.exec, hsent,
      Option.some.injEq, Prod.mk.injEq] at hexec
    exact hexec.1.symm
  · intro hret htimeout
    simp only [hparams, hattempts, UartBusDevice.callLoop, Program.exec, htimeout, hsingle,
      Bool.false_eq_true, if_false, Option.some.injEq, Prod.mk.injEq] at hexec
    exact hexec.1.symm

end Call

/-! ## Two namespaces -/

/-- A namespace whose function 3 takes one byte and selects another one, in which the posix
function 9 replies a value and the posix function 10 fails. -/
def pairOfNamespaces : UbService Bool Unit where
  call service index reader memory :=
    match service, index with
    | false, 3 => (some (⟨false, .ok (.subNamespace true)⟩, { reader with ep := 1 }), memory)
    | true, 9 => (some (⟨true, .ok (.value (.u8 42))⟩, reader), memory)
    | true, 10 => (some (⟨true, .error (.posix 5)⟩, reader), memory)
    | _, _ => (none, memory)

/-- They are served at the address -100 behind the path 7. -/
def pairBridge : UartbusServiceBridge Bool := ⟨false, some (-100), [7]⟩

def pairDevice : UartBusDevice := ⟨-100, 100, 5⟩

/-- A client with the address 63 calls a function of the inner namespace. -/
theorem pairOfNamespaces_calls (pending : List (ℕ × TransactionState)) (next : ℕ) (index : UInt8)
    (call : ServiceCall Bool)
    (hcall : pairOfNamespaces.call true index ⟨[], 0⟩ () = (some (call, ⟨[], 0⟩), ())) :
    Calls pairOfNamespaces pairBridge pairDevice ⟨⟨63, pending, next⟩, ()⟩ [7, 3, 200] index []
      call where
  device := by norm_num [I32, pairDevice]
  client := by norm_num [I32]
  target := by simp [pairBridge, pairDevice]
  path := ⟨[3, 200], rfl⟩
  selects := ⟨true, (), ⟨[], 0⟩, (),
    .through (show ([7, 3, 200] ++ [index])[1]? = some 3 from rfl) rfl rfl (.here true 3 ()), hcall⟩

/-- Two functions of a namespace in two namespaces: one returns a value, the other an errno. -/
theorem remote_call_eq_local_nested :
    CallReturns pairOfNamespaces pairBridge pairDevice ⟨⟨63, [], 0⟩, ()⟩ [7, 3, 200]
        ⟨9, .value .u8, true, false⟩ [] (.ok (some (.u8 42))) ∧
      CallReturns pairOfNamespaces pairBridge pairDevice ⟨⟨63, [], 0⟩, ()⟩ [7, 3, 200]
        ⟨10, .void, true, false⟩ [] (.error (.posix 5)) := by
  have hfree : ∀ path, Unclaimed ⟨63, [], 0⟩ (-100) path := fun _ _ h => by simp at h
  constructor
  · exact (remote_call_eq_local pairOfNamespaces _ _ _ _ ⟨9, .value .u8, true, false⟩ [] [] _
      (by norm_num [pairDevice]) rfl (pairOfNamespaces_calls [] 0 9 _ rfl) (hfree _) rfl).1 _ _ rfl
        rfl ⟨42, rfl⟩ trivial
  · exact (remote_call_eq_local pairOfNamespaces _ _ _ _ ⟨10, .void, true, false⟩ [] [] _
      (by norm_num [pairDevice]) rfl (pairOfNamespaces_calls [] 0 10 _ rfl) (hfree _) rfl).2.2 5
        rfl rfl (by decide) (by simp)

/-- The posix function 10 fails, but with a description that says it never answers the call does
not wait for the error number.  And the value of the function 9 goes to a transaction that has
waited for the same answer before. -/
theorem remote_call_differs :
    (Calls pairOfNamespaces pairBridge pairDevice ⟨⟨63, [], 0⟩, ()⟩ [7, 3, 200] 10 []
        ⟨true, .error (.posix 5)⟩ ∧
      ¬ CallReturns pairOfNamespaces pairBridge pairDevice ⟨⟨63, [], 0⟩, ()⟩ [7, 3, 200]
        ⟨10, .noReturn, true, false⟩ [] (.error (.posix 5))) ∧
    (Calls pairOfNamespaces pairBridge pairDevice
        ⟨⟨63, [(0, ⟨-100, 63, [7, 3, 200, 9], true⟩)], 1⟩, ()⟩ [7, 3, 200] 9 []
        ⟨true, .ok (.value (.u8 42))⟩ ∧
      ¬ CallReturns pairOfNamespaces pairBridge pairDevice
        ⟨⟨63, [(0, ⟨-100, 63, [7, 3, 200, 9], true⟩)], 1⟩, ()⟩ [7, 3, 200]
        ⟨9, .value .u8, true, false⟩ [] (.ok (some (.u8 42)))) := by
  refine ⟨⟨pairOfNamespaces_calls [] 0 10 _ rfl, fun h => ?_⟩,
    pairOfNamespaces_calls _ 1 9 _ rfl, fun h => ?_⟩
  · cases (call_outcome (by norm_num [pairDevice]) rfl rfl h).1 rfl
  · have hcalls := pairOfNamespaces_calls [(0, ⟨-100, 63, [7, 3, 200, 9], true⟩)] 1 9 _ rfl
    have hbytes : appendElements [.u8 0, .u8 42] = .ok [0, 42] := rfl
    have hanswer := respond_answered hcalls
      (t := (0, ⟨-100, 63, [7, 3, 200, 9], true⟩)) rfl hbytes rfl
    cases (call_outcome (by norm_num [pairDevice]) rfl rfl h).2 (by simp) hanswer

end Uartbus.Analysis

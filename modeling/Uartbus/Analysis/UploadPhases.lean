import Uartbus.Analysis.UploadPrograms
import Uartbus.Analysis.FlashProgramming

/-!
# Phases of an upload

A phase of an upload is a stretch of `push_code` with the requests it makes, what holds of the
device and of the requests in flight meanwhile, and what is known from them.  `Phase` carries
the proofs that losing, sending and delivering a request keep this.

Whatever the phase, every step of the system but the uploader's going on to its next statement
stays in it (`InPhase.step`): the answers in flight and the one that is waited for tell nothing
that is not known, and the rest of the program is safe with what is known.
-/

set_option autoImplicit false

namespace Uartbus.Analysis

open Lib Model

variable {point : UploadPoint} {packet : Packet}

/-! ## The transaction at hand -/

/-- An accepted answer starts with 0 and the path. -/
theorem prefix_of_tryAcceptResponse {t : TransactionState} (hzero : t.zeroNamespaceAnswer = true)
    (h : t.tryAcceptResponse packet = true) : (0 :: t.path) <+: packet.payload := by
  unfold TransactionState.tryAcceptResponse at h
  simp only [hzero, if_true, true_and] at h
  split at h
  · cases h
  · split at h
    · cases h
    next hlen =>
      split at h
      · cases h
      next hhead =>
        have htake := of_decide_eq_true h
        cases hpayload : packet.payload with
        | nil => simp [hpayload] at hlen
        | cons b rest =>
          simp only [hpayload, List.getD_cons_zero, Decidable.not_not, List.drop_succ_cons,
            List.drop_zero] at hhead htake
          rw [hhead, ← htake, List.prefix_cons_inj]
          exact List.take_prefix _ _

/-- The uploader's transaction: none, one without an answer, or one with an answer that it has
not taken yet. -/
inductive Waits (k : Knowledge) (bus : UartBus) (program : ClientProgram UploadPoint) :
    Option (ℕ × Option Bytes) → Prop where
  | idle (hbus : bus.pendingRequests = []) : Waits k bus program none
  | pending (id : ℕ) (t : TransactionState) (r : Request)
      (next : Outcome → ClientProgram UploadPoint) (hprogram : program = .ask r next)
      (hbus : bus.pendingRequests = [(id, t)]) (hpath : t.path = r.path)
      (hzero : t.zeroNamespaceAnswer = true) : Waits k bus program (some (id, none))
  | answered (id : ℕ) (payload : Bytes) (r : Request)
      (next : Outcome → ClientProgram UploadPoint) (hprogram : program = .ask r next)
      (hbus : bus.pendingRequests = []) (htold : Told k r (.response payload)) :
      Waits k bus program (some (id, some payload))

section Waits

variable {k k' : Knowledge} {bus : UartBus} {program : ClientProgram UploadPoint}
  {waiting : Option (ℕ × Option Bytes)}

theorem Waits.mono (h : Waits k bus program waiting) (hk : k ≤ k') :
    Waits k' bus program waiting := by
  cases h with
  | idle hbus => exact .idle hbus
  | pending id t r next hprogram hbus hpath hzero =>
    exact .pending id t r next hprogram hbus hpath hzero
  | answered id payload r next hprogram hbus htold =>
    exact .answered id payload r next hprogram hbus (told_mono k k' hk r _ htold)

/-- An answer arrives. -/
theorem Waits.processPacket (h : Waits k bus program waiting) (hok : AnswerOk k packet.payload) :
    Waits k (bus.processPacket packet).1 program
      (storeResponse waiting (bus.processPacket packet).2 packet.payload) := by
  cases h with
  | idle hbus =>
    simp only [UartBus.processPacket, hbus, List.find?_nil, storeResponse]
    exact .idle hbus
  | pending id t r next hprogram hbus hpath hzero =>
    cases haccept : t.tryAcceptResponse packet with
    | true =>
      simp only [UartBus.processPacket, hbus, List.find?_cons, haccept, storeResponse,
        if_true, List.eraseP_cons, cond_true]
      refine .answered id _ r next hprogram rfl ⟨?_, hok⟩
      rw [← hpath]
      exact prefix_of_tryAcceptResponse hzero haccept
    | false =>
      simp only [UartBus.processPacket, hbus, List.find?_cons, haccept, List.find?_nil,
        storeResponse, reduceCtorEq, if_false]
      exact .pending id t r next hprogram hbus hpath hzero
  | answered id payload r next hprogram hbus htold =>
    simp only [UartBus.processPacket, hbus, List.find?_nil, storeResponse, reduceCtorEq,
      if_false]
    exact .answered id payload r next hprogram hbus htold

/-- When the transaction is over nothing is pending. -/
theorem Waits.revoked {id : ℕ} {response : Option Bytes}
    (h : Waits k bus program (some (id, response))) :
    (bus.revokePendingRequest id).pendingRequests = [] := by
  cases h with
  | pending _ t r next hprogram hbus hpath hzero => simp [UartBus.revokePendingRequest, hbus]
  | answered _ payload r next hprogram hbus htold => simp [UartBus.revokePendingRequest, hbus]

end Waits

/-! ## Phases -/

/-- A phase of the upload to a device of the platform. -/
structure Phase (p : Platform) where
  /-- The requests of the phase. -/
  mayAsk : Request → Prop
  /-- The device and the requests in flight. -/
  ground : Flash p → List Packet → Prop
  /-- What answers can tell. -/
  known : Flash p → List Packet → Knowledge
  /-- Where the uploader goes from the phase. -/
  result : Knowledge → UploadPoint → Prop
  lose : ∀ {device : Flash p} {requests rest : List Packet}, rest.Sublist requests →
    ground device requests → ground device rest ∧ known device requests ≤ known device rest
  send : ∀ {device : Flash p} {requests : List Packet} {packet : Packet} {r : Request},
    mayAsk r → packet.payload = r.payload → ground device requests →
      ground device (requests ++ [packet]) ∧
        known device requests ≤ known device (requests ++ [packet])
  deliver : ∀ {device device' : Flash p} {packet : Packet} {rest answers : List Packet},
    DispatchCase device packet device' answers → ground device (packet :: rest) →
      ground device' rest ∧ known device (packet :: rest) ≤ known device' rest ∧
        ∀ answer ∈ answers, AnswerOk (known device' rest) answer.payload

/-- The system is in the phase. -/
structure InPhase {p : Platform} (φ : Phase p) (s : UploadSystem p) : Prop where
  ground : φ.ground s.device s.requests
  answers : ∀ answer ∈ s.answers, AnswerOk (φ.known s.device s.requests) answer.payload
  waits : Waits (φ.known s.device s.requests) s.bus s.program s.waiting
  safe : s.program.SafeFrom φ.mayAsk Told φ.result (φ.known s.device s.requests)

namespace InPhase

variable {p : Platform} {φ : Phase p} {s s' : UploadSystem p} {dev : UartBusDevice}
  {code : CodeSegment}

variable (h : InPhase φ s)
include h

/-- Another device and other requests, with more known. -/
theorem grow {device : Flash p} {requests : List Packet} (hground : φ.ground device requests)
    (hk : φ.known s.device s.requests ≤ φ.known device requests) :
    InPhase φ { s with device := device, requests := requests } where
  ground := hground
  answers := fun answer ha => (h.answers answer ha).mono hk
  waits := h.waits.mono hk
  safe := h.safe.mono hk

/-- The transaction at hand comes to an end. -/
theorem settle {r : Request} {next : Outcome → ClientProgram UploadPoint} {w : Outcome}
    (bus : UartBus) (hprogram : s.program = .ask r next)
    (hw : Told (φ.known s.device s.requests) r w) (hbus : bus.pendingRequests = []) :
    InPhase φ { s with waiting := none, bus := bus, program := next w } where
  ground := h.ground
  answers := h.answers
  waits := .idle hbus
  safe := by
    have hsafe := h.safe
    rw [hprogram] at hsafe
    exact hsafe.outcome told_mono hw

/-- The request of the program goes out; one that is not awaited is done. -/
theorem send (hstep : uploadStep dev code s .send = some s') : InPhase φ s' := by
  have hwaits := h.waits
  simp only [uploadStep] at hstep
  split at hstep
  next r next hwaiting hprogram =>
    rw [hwaiting] at hwaits
    cases hwaits with
    | idle hbus =>
      have hask : φ.mayAsk r := by
        have hsafe := h.safe
        rw [hprogram] at hsafe
        exact hsafe.request
      have hpayload :
          (⟨dev.address, s.bus.fromAddress, r.payload⟩ : Packet).payload = r.payload := rfl
      obtain ⟨hground, hk⟩ := φ.send hask hpayload h.ground
      have hgrown := h.grow hground hk
      simp only [UartBus.newTransaction, UartBus.register, hbus, List.nil_append] at hstep
      split at hstep
      next =>
        cases hstep
        exact ⟨hground, hgrown.answers, .pending _ _ r next hprogram rfl rfl rfl, hgrown.safe⟩
      next hawait =>
        cases hstep
        have hsent : Told (φ.known s.device
            (s.requests ++ [⟨dev.address, s.bus.fromAddress, r.payload⟩])) r .sent := by
          simpa [Told] using hawait
        have hrevoked := hgrown.settle (UartBus.revokePendingRequest
          { s.bus with
            pendingRequests := [(s.bus.nextId, ⟨dev.address, s.bus.fromAddress, r.path, true⟩)]
            nextId := s.bus.nextId + 1 } s.bus.nextId) hprogram hsent
          (by simp [UartBus.revokePendingRequest])
        rw [← hwaiting] at hrevoked
        exact hrevoked
  next => cases hstep

theorem sendFails {text : String} (hstep : uploadStep dev code s (.sendFails text) = some s') :
    InPhase φ s' := by
  have hwaits := h.waits
  simp only [uploadStep] at hstep
  split at hstep
  next r next hwaiting hprogram =>
    rw [hwaiting] at hwaits
    cases hwaits with
    | idle hbus =>
      cases hstep
      have hsettled := h.settle (w := .sendFailed text)
        ((s.bus.newTransaction dev.address r.path r.payload true).1.revokePendingRequest
          s.bus.nextId) hprogram trivial
        (by simp [UartBus.newTransaction, UartBus.register, UartBus.revokePendingRequest, hbus])
      rw [← hwaiting] at hsettled
      exact hsettled
  next => cases hstep

theorem receive (hstep : uploadStep dev code s .receive = some s') : InPhase φ s' := by
  have hwaits := h.waits
  simp only [uploadStep] at hstep
  split at hstep
  next id payload r next hwaiting hprogram =>
    rw [hwaiting] at hwaits
    cases hstep
    have hbus := hwaits.revoked
    cases hwaits with
    | answered _ _ r' next' hprogram' _ htold =>
      rw [hprogram] at hprogram'
      cases hprogram'
      exact h.settle _ hprogram htold hbus
  next => cases hstep

theorem giveUp (hstep : uploadStep dev code s .giveUp = some s') : InPhase φ s' := by
  have hwaits := h.waits
  simp only [uploadStep] at hstep
  split at hstep
  next id response r next hwaiting hprogram =>
    rw [hwaiting] at hwaits
    cases hstep
    exact h.settle (w := .timedOut) _ hprogram trivial hwaits.revoked
  next => cases hstep

theorem deliverRequest (hstep : uploadStep dev code s .deliverRequest = some s') :
    InPhase φ s' := by
  simp only [uploadStep] at hstep
  split at hstep
  · cases hstep
  next packet rest hrequests =>
    cases hstep
    have hold := h.ground
    rw [hrequests] at hold
    obtain ⟨hground, hk, hanswers⟩ := φ.deliver (dispatch_case s.device packet) hold
    rw [← hrequests] at hk
    have hgrown := h.grow hground hk
    refine ⟨hground, fun answer ha => ?_, hgrown.waits, hgrown.safe⟩
    rcases List.mem_append.mp ha with hin | hnew
    · exact hgrown.answers answer hin
    · exact hanswers answer hnew

theorem deliverAnswer (hstep : uploadStep dev code s .deliverAnswer = some s') : InPhase φ s' := by
  simp only [uploadStep] at hstep
  split at hstep
  · cases hstep
  next packet rest hanswers =>
    cases hstep
    have hok : ∀ answer ∈ packet :: rest,
        AnswerOk (φ.known s.device s.requests) answer.payload := by
      rw [← hanswers]
      exact h.answers
    exact ⟨h.ground, fun answer ha => hok answer (List.mem_cons_of_mem _ ha),
      h.waits.processPacket (hok packet List.mem_cons_self), h.safe⟩

theorem loseRequest {i : ℕ} (hstep : uploadStep dev code s (.loseRequest i) = some s') :
    InPhase φ s' := by
  simp only [uploadStep] at hstep
  split at hstep
  · cases hstep
    obtain ⟨hground, hk⟩ := φ.lose (List.eraseIdx_sublist s.requests i) h.ground
    exact h.grow hground hk
  · cases hstep

theorem loseAnswer {i : ℕ} (hstep : uploadStep dev code s (.loseAnswer i) = some s') :
    InPhase φ s' := by
  simp only [uploadStep] at hstep
  split at hstep
  · cases hstep
    exact ⟨h.ground, fun answer ha => h.answers answer (List.mem_of_mem_eraseIdx ha), h.waits,
      h.safe⟩
  · cases hstep

/-- **One step.**  Every step but `advance` stays in the phase. -/
theorem step {act : UploadAction} (hact : act ≠ .advance)
    (hstep : uploadStep dev code s act = some s') : InPhase φ s' := by
  cases act with
  | advance => exact absurd rfl hact
  | send => exact h.send hstep
  | sendFails text => exact h.sendFails hstep
  | receive => exact h.receive hstep
  | giveUp => exact h.giveUp hstep
  | deliverRequest => exact h.deliverRequest hstep
  | deliverAnswer => exact h.deliverAnswer hstep
  | loseRequest i => exact h.loseRequest hstep
  | loseAnswer i => exact h.loseAnswer hstep

/-- The result of the phase, when the program is done. -/
theorem result (hprogram : s.program = .done point) :
    φ.result (φ.known s.device s.requests) point := by
  have hsafe := h.safe
  rw [hprogram] at hsafe
  exact hsafe.result

/-- The uploader goes on, to the same phase or another one. -/
theorem enter {ψ : Phase p} {next : UploadPoint} (hprogram : s.program = .done point)
    (hground : ψ.ground s.device s.requests)
    (hk : φ.known s.device s.requests ≤ ψ.known s.device s.requests)
    (hsafe : (pushCodeAt dev code next).SafeFrom ψ.mayAsk Told ψ.result
      (ψ.known s.device s.requests)) :
    InPhase ψ { s with program := pushCodeAt dev code next } where
  ground := hground
  answers := fun answer ha => (h.answers answer ha).mono hk
  waits := by
    have hwaits := h.waits
    generalize s.waiting = waiting at hwaits
    cases hwaits with
    | idle hbus => exact .idle hbus
    | pending id t r next hask | answered id payload r next hask =>
      rw [hprogram] at hask
      cases hask
  safe := hsafe

end InPhase

end Uartbus.Analysis

import Uartbus.Model.PacketReads
import Uartbus.Analysis.RpcRoundTrip

/-!
# Reading a typed value ends

A read moves the reader on and keeps it within the data (`readWithin_ends`), whatever the type.
Whether it ends is a matter of the type: the loop of an array goes on as long as there are bytes,
so it ends when each item takes some.  `stuck` names the types where that can fail, and those are
all of them (`readsToEnd_iff`).  `readType_eq_readWithin` connects both models of `read_type`.
-/

set_option autoImplicit false

namespace Uartbus.Analysis

open Lib Interface Model

variable {next r : PacketReader} {readItem : PacketReader → Option ReadEnd} {rounds : ℕ}
  {ty : RpcType} {α : Type} {v : RpcValue} {ended : ReadEnd} {signed : Bool}

/-! ## What a read that ends leaves -/

/-- The reader has moved on, within the same data. -/
structure Onward (r next : PacketReader) : Prop where
  data : next.data = r.data
  le : r.ep ≤ next.ep
  bound : next.ep ≤ r.data.length

theorem Onward.refl (hep : r.ep ≤ r.data.length) : Onward r r :=
  ⟨rfl, le_rfl, hep⟩

theorem Onward.trans {last : PacketReader} (h : Onward r next) (h' : Onward next last) :
    Onward r last :=
  ⟨h'.data.trans h.data, h.le.trans h'.le, h.data ▸ h'.bound⟩

/-- The reader that is left, behind a value or an error; there is no panic. -/
def LeavesOnward (r : PacketReader) : ReadEnd → Prop
  | .value _ next | .error _ next => Onward r next
  | .panics => False

/-- A read at `r` that ends in `ended`.  A value takes bytes unless it is hollow, and all of them
where its end is not marked. -/
structure EndsWell (isHollow isPassed : Bool) (r : PacketReader) (ended : ReadEnd) : Prop where
  onward : LeavesOnward r ended
  moved : ∀ v next, ended = .value v next → isHollow = false → r.ep < r.data.length →
    r.ep < next.ep
  used : ∀ v next, ended = .value v next → isPassed = false → next.ep = r.data.length

/-- The reads that take at least one byte. -/
theorem endsWell_of_taking (honward : LeavesOnward r ended)
    (htaking : ∀ v next, ended = .value v next → r.ep < next.ep) : EndsWell false true r ended :=
  ⟨honward, fun v next hv _ _ => htaking v next hv, by simp⟩

theorem endsWell_ofOption (wrap : α → RpcValue) (hep : r.ep ≤ r.data.length)
    {result : Option (α × PacketReader)}
    (h : ∀ v next, result = some (v, next) → Onward r next ∧ r.ep < next.ep) :
    EndsWell false true r (.ofOption wrap r result) := by
  cases result with
  | none => exact endsWell_of_taking (.refl hep) fun _ _ hv => ReadEnd.noConfusion hv
  | some result =>
    obtain ⟨honward, hmoved⟩ := h result.1 result.2 rfl
    refine endsWell_of_taking honward fun v next hv => ?_
    cases hv
    exact hmoved

theorem endsWell_ofExcept (wrap : α → RpcValue) (hep : r.ep ≤ r.data.length)
    {result : Except UnpackError (α × PacketReader)}
    (h : ∀ v next, result = .ok (v, next) → Onward r next ∧ r.ep < next.ep) :
    EndsWell false true r (.ofExcept wrap r result) := by
  cases result with
  | error err => exact endsWell_of_taking (.refl hep) fun _ _ hv => ReadEnd.noConfusion hv
  | ok result =>
    obtain ⟨honward, hmoved⟩ := h result.1 result.2 rfl
    refine endsWell_of_taking honward fun v next hv => ?_
    cases hv
    exact hmoved

theorem readUbyte_onward {v : UInt8} (h : r.readUbyte = some (v, next)) :
    Onward r next ∧ r.ep < next.ep := by
  unfold PacketReader.readUbyte at h
  obtain ⟨b, hb, heq⟩ := Option.map_eq_some_iff.mp h
  obtain ⟨rfl, rfl⟩ := Prod.mk.inj heq
  obtain ⟨hlt, -⟩ := List.getElem?_eq_some_iff.mp hb
  exact ⟨⟨rfl, Nat.le_succ _, hlt⟩, Nat.lt_succ_self _⟩

theorem readU16Be_onward {v : UInt16} (h : r.readU16Be = some (v, next)) :
    Onward r next ∧ r.ep < next.ep := by
  unfold PacketReader.readU16Be at h
  cases hhigh : r.data[r.ep]? with
  | none => simp [hhigh] at h
  | some high =>
    cases hlow : r.data[r.ep + 1]? with
    | none => simp [hhigh, hlow] at h
    | some low =>
      simp only [hhigh, hlow, Option.some.injEq, Prod.mk.injEq] at h
      obtain ⟨-, rfl⟩ := h
      obtain ⟨hlt, -⟩ := List.getElem?_eq_some_iff.mp hlow
      exact ⟨⟨rfl, Nat.le_add_right _ _, hlt⟩, by dsimp only; omega⟩

theorem readInt_onward {v : ℤ} (h : r.readInt signed = .ok (v, next)) :
    Onward r next ∧ r.ep < next.ep := by
  unfold PacketReader.readInt at h
  cases hread : unpackValue signed r.data r.ep with
  | error err => simp [hread, bind, Except.bind] at h
  | ok result =>
    simp only [hread, bind, Except.bind, pure, Except.pure, Except.ok.injEq, Prod.mk.injEq] at h
    obtain ⟨-, rfl⟩ := h
    obtain ⟨flagged, last, post, hdrop, hused, -⟩ :=
      usedBytes_eq_ok (usedBytes_of_unpackValue hread)
    have hlen := congrArg List.length hdrop
    rw [List.length_drop, List.length_append, List.length_cons] at hlen
    refine ⟨⟨rfl, Nat.le_add_right _ _, ?_⟩, ?_⟩ <;> dsimp only <;> omega

theorem readString_onward {v : String} (h : r.readString = .ok (v, next)) :
    Onward r next ∧ r.ep < next.ep := by
  unfold PacketReader.readString at h
  dsimp only at h
  split at h
  case isTrue hoffset =>
    split at h
    · simp only [Except.ok.injEq, Prod.mk.injEq] at h
      obtain ⟨-, rfl⟩ := h
      rw [List.length_drop] at hoffset
      refine ⟨⟨rfl, ?_, ?_⟩, ?_⟩ <;> dsimp only <;> omega
    · exact absurd h (by simp)
  case isFalse => exact absurd h (by simp)

/-- No index is one of an enum without values. -/
theorem endsWell_ofEnum (values : List String) (hep : r.ep ≤ r.data.length) :
    EndsWell false (!values.isEmpty) r (.ofEnum values.length r) := by
  unfold ReadEnd.ofEnum
  cases hread : r.readInt false with
  | error err => exact ⟨.refl hep, by simp, by simp⟩
  | ok result =>
    obtain ⟨honward, hmoved⟩ := readInt_onward hread
    dsimp only
    split
    · split
      case isTrue => exact ⟨honward, by simp, by simp⟩
      case isFalse hindex =>
        refine ⟨honward, fun v next hv _ _ => ?_, fun v next _ hempty => ?_⟩
        · cases hv
          exact hmoved
        · have : values = [] := by simpa using hempty
          simp [this] at hindex
    · exact ⟨honward, by simp, by simp⟩

/-- The array loop stops when no bytes are left. -/
theorem readItems_ends
    (hitem : ∀ r ended, r.ep ≤ r.data.length → readItem r = some ended → LeavesOnward r ended)
    (rounds : ℕ) : ∀ (r : PacketReader) (values : List RpcValue) (ended : ReadEnd),
      r.ep ≤ r.data.length → readItems readItem rounds r values = some ended →
        LeavesOnward r ended ∧ ∀ v next, ended = .value v next → next.ep = r.data.length := by
  induction rounds with
  | zero =>
    intro r values ended _ h
    simp [readItems] at h
  | succ rounds ih =>
    intro r values ended hep h
    rw [readItems] at h
    split at h
    case isFalse hdone =>
      cases h
      refine ⟨.refl hep, fun v next hv => ?_⟩
      cases hv
      simp only [PacketReader.hasUnprocessedBytes, decide_eq_true_eq] at hdone
      omega
    case isTrue =>
      split at h
      case h_1 v next hread =>
        have hnext : Onward r next := hitem r _ hep hread
        obtain ⟨honward, hend⟩ := ih next _ ended (hnext.data ▸ hnext.bound) h
        rw [hnext.data] at hend
        refine ⟨?_, hend⟩
        cases ended with
        | value v last => exact hnext.trans honward
        | error err last => exact hnext.trans honward
        | panics => exact honward
      case h_2 hnone =>
        refine ⟨hitem r ended hep h, fun v next hv => ?_⟩
        subst hv
        exact absurd h (hnone v next)

/-- The fields behind a field that was read. -/
theorem EndsWell.fields {isHollow isPassed restHollow restPassed : Bool}
    (hfirst : EndsWell isHollow isPassed r (.value v next))
    (hrest : EndsWell restHollow restPassed next ended) :
    EndsWell (isHollow && restHollow) (isPassed && restPassed) r ended := by
  have hnext : Onward r next := hfirst.onward
  have hdata := hnext.data
  refine ⟨?_, fun w last hw hhollow hlt => ?_, fun w last hw hpassed => ?_⟩
  · cases ended with
    | value w last => exact hnext.trans hrest.onward
    | error err last => exact hnext.trans hrest.onward
    | panics => exact hrest.onward
  all_goals
    subst hw
    have hlast : Onward next last := hrest.onward
    have hle := hnext.le
  · -- one of the two took a byte, or the first took all of them
    rcases (Bool.and_eq_false_iff.mp hhollow) with h | h
    · exact (hfirst.moved v next rfl h hlt).trans_le hlast.le
    · rcases Nat.lt_or_ge next.ep next.data.length with hmore | hnone
      · exact hle.trans_lt (hrest.moved w last rfl h hmore)
      · rw [hdata] at hnone
        exact (hlt.trans_le hnone).trans_le hlast.le
  · rcases (Bool.and_eq_false_iff.mp hpassed) with h | h
    · have hend := hfirst.used v next rfl h
      have hbound := hlast.bound
      have hmono := hlast.le
      rw [hdata] at hbound
      omega
    · rw [hrest.used w last rfl h, hdata]

mutual

/-- **What a read leaves.** -/
theorem readWithin_ends (rounds : ℕ) : ∀ (ty : RpcType) (r : PacketReader) (ended : ReadEnd),
    r.ep ≤ r.data.length → readWithin rounds ty r = some ended →
      EndsWell (hollow ty) (passes ty) r ended
  | .bool, _, _, hep, h | .s8, _, _, hep, h | .u8, _, _, hep, h | .uint8, _, _, hep, h => by
    cases h
    exact endsWell_ofOption _ hep fun _ _ => readUbyte_onward
  | .u16, _, _, hep, h | .uint16, _, _, hep, h | .s16, _, _, hep, h => by
    cases h
    exact endsWell_ofOption _ hep fun _ _ => readU16Be_onward
  | .bytes, r, ended, hep, h => by
    rw [readWithin, ReadEnd.sliced, if_pos hep] at h
    cases h
    refine ⟨⟨rfl, hep, le_rfl⟩, fun v next hv _ hlt => ?_, fun v next hv _ => ?_⟩
    · cases hv
      exact hlt
    · cases hv
      rfl
  | .string, r, ended, hep, h => by
    rw [readWithin, ReadEnd.sliced, if_pos hep] at h
    cases h
    exact endsWell_ofExcept _ hep fun _ _ => readString_onward
  | .vSigned, _, _, hep, h | .vUnsigned, _, _, hep, h => by
    cases h
    exact endsWell_ofExcept _ hep fun _ _ => readInt_onward
  | .enum values, _, _, hep, h => by
    cases h
    exact endsWell_ofEnum values hep
  | .struct types, r, ended, hep, h => readFieldsWithin_ends rounds types r [] ended hep h
  | .array item, r, ended, hep, h => by
    obtain ⟨honward, hend⟩ := readItems_ends
      (fun r ended hep h => (readWithin_ends rounds item r ended hep h).onward) rounds r [] ended
      hep h
    refine ⟨honward, fun v next hv _ hlt => ?_, fun v next hv _ => hend v next hv⟩
    rw [hend v next hv]
    exact hlt

theorem readFieldsWithin_ends (rounds : ℕ) :
    ∀ (types : List RpcType) (r : PacketReader) (values : List RpcValue) (ended : ReadEnd),
      r.ep ≤ r.data.length → readFieldsWithin rounds types r values = some ended →
        EndsWell (allHollow types) (allPass types) r ended
  | [], r, _, ended, hep, h => by
    cases h
    exact ⟨.refl hep, fun _ _ _ h => Bool.noConfusion h, fun _ _ _ h => Bool.noConfusion h⟩
  | ty :: types, r, values, ended, hep, h => by
    rw [readFieldsWithin] at h
    split at h
    case h_1 v next hread =>
      have hfirst := readWithin_ends rounds ty r _ hep hread
      have hnext : Onward r next := hfirst.onward
      have hrest := readFieldsWithin_ends rounds types next _ ended (hnext.data ▸ hnext.bound) h
      exact hfirst.fields hrest
    case h_2 hnone =>
      have hfirst := readWithin_ends rounds ty r ended hep h
      refine ⟨hfirst.onward, ?_, ?_⟩ <;>
      · rintro v next rfl
        exact absurd h (hnone v next)

end

/-! ## More rounds change nothing -/

/-- More rounds change nothing once the loop has ended. -/
theorem readItems_mono {readItem' : PacketReader → Option ReadEnd}
    (hitem : ∀ r ended, readItem r = some ended → readItem' r = some ended) :
    ∀ {more : ℕ} (_ : rounds ≤ more) (r : PacketReader) (values : List RpcValue) (ended : ReadEnd),
      readItems readItem rounds r values = some ended →
        readItems readItem' more r values = some ended := by
  induction rounds with
  | zero =>
    intro more _ r values ended h
    simp [readItems] at h
  | succ rounds ih =>
    intro more hmore r values ended h
    obtain ⟨more, rfl⟩ := Nat.exists_eq_add_of_lt hmore
    rw [readItems] at h ⊢
    split at h
    case isFalse hdone => rwa [if_neg hdone]
    case isTrue hbytes =>
      rw [if_pos hbytes]
      split at h
      case h_1 v next hread =>
        rw [hitem r _ hread]
        exact ih (Nat.le_add_right _ _) next _ ended h
      case h_2 hnone =>
        rw [hitem r ended h]
        cases ended with
        | value v next => exact absurd h (hnone v next)
        | error err next => rfl
        | panics => rfl

mutual

theorem readWithin_mono {more : ℕ} (hmore : rounds ≤ more) :
    ∀ (ty : RpcType) (r : PacketReader) (ended : ReadEnd),
      readWithin rounds ty r = some ended → readWithin more ty r = some ended
  | .bool, _, _, h | .s8, _, _, h | .u8, _, _, h | .uint8, _, _, h | .u16, _, _, h
  | .uint16, _, _, h | .s16, _, _, h | .bytes, _, _, h | .string, _, _, h | .vSigned, _, _, h
  | .vUnsigned, _, _, h | .enum _, _, _, h => h
  | .struct types, r, ended, h => readFieldsWithin_mono hmore types r [] ended h
  | .array item, r, ended, h => readItems_mono (readWithin_mono hmore item) hmore r [] ended h

theorem readFieldsWithin_mono {more : ℕ} (hmore : rounds ≤ more) :
    ∀ (types : List RpcType) (r : PacketReader) (values : List RpcValue) (ended : ReadEnd),
      readFieldsWithin rounds types r values = some ended →
        readFieldsWithin more types r values = some ended
  | [], _, _, _, h => h
  | ty :: types, r, values, ended, h => by
    rw [readFieldsWithin] at h ⊢
    split at h
    case h_1 v next hread =>
      rw [readWithin_mono hmore ty r _ hread]
      exact readFieldsWithin_mono hmore types next _ ended h
    case h_2 hnone =>
      rw [readWithin_mono hmore ty r ended h]
      cases ended with
      | value v next => exact absurd h (hnone v next)
      | error err next => rfl
      | panics => rfl

end

/-! ## Types that are read to an end -/

/-- Without bytes the array loop is not entered. -/
theorem readItems_done (h : r.hasUnprocessedBytes = false) (hrounds : 0 < rounds)
    (values : List RpcValue) :
    readItems readItem rounds r values = some (.value (.array values) r) := by
  obtain ⟨rounds, rfl⟩ := Nat.exists_eq_add_of_lt hrounds
  simp [readItems, h]

/-- The array loop over items that take bytes: one round more than there are bytes is enough. -/
theorem readItems_ended {len : ℕ} (hitem : ∀ r : PacketReader, r.data.length = len → r.ep < len →
      ∃ ended, readItem r = some ended ∧ ∀ v next, ended = .value v next →
        next.data.length = len ∧ r.ep < next.ep ∧ next.ep ≤ len) (rounds : ℕ) :
    ∀ (r : PacketReader) (values : List RpcValue), r.data.length = len → r.ep ≤ len →
      len - r.ep < rounds → ∃ ended, readItems readItem rounds r values = some ended := by
  induction rounds with
  | zero =>
    intro r values _ _ hrounds
    omega
  | succ rounds ih =>
    intro r values hlen hep hrounds
    rw [readItems]
    split
    case isFalse => exact ⟨_, rfl⟩
    case isTrue hbytes =>
      have hlt : r.ep < len := by
        rw [← hlen]
        exact of_decide_eq_true hbytes
      obtain ⟨ended, hread, hnext⟩ := hitem r hlen hlt
      rw [hread]
      cases ended with
      | value v next =>
        obtain ⟨hdata, hmoved, hbound⟩ := hnext v next rfl
        exact ih next _ hdata hbound (by omega)
      | error err next => exact ⟨_, rfl⟩
      | panics => exact ⟨_, rfl⟩

mutual

/-- **Reads that end.**  A type that is stuck is read to an end where no bytes are left. -/
theorem readWithin_ended :
    ∀ (ty : RpcType) (r : PacketReader), (stuck ty = true → r.ep = r.data.length) →
      r.ep ≤ r.data.length → r.data.length < rounds → ∃ ended, readWithin rounds ty r = some ended
  | .bool, _, _, _, _ | .s8, _, _, _, _ | .u8, _, _, _, _ | .uint8, _, _, _, _ | .u16, _, _, _, _
  | .uint16, _, _, _, _ | .s16, _, _, _, _ | .bytes, _, _, _, _ | .string, _, _, _, _
  | .vSigned, _, _, _, _ | .vUnsigned, _, _, _, _ | .enum _, _, _, _, _ => ⟨_, rfl⟩
  | .struct types, r, hstuck, hep, hrounds =>
    readFieldsWithin_ended types r [] hstuck hep hrounds
  | .array item, r, hstuck, hep, hrounds => by
    rcases Bool.eq_false_or_eq_true (stuck (.array item)) with hs | hs
    · exact ⟨_, readItems_done (decide_eq_false (hstuck hs).not_lt) (Nat.zero_lt_of_lt hrounds) []⟩
    · obtain ⟨hhollow, hitem⟩ := Bool.or_eq_false_iff.mp hs
      refine readItems_ended (fun r' hlen hlt => ?_) rounds r [] rfl hep
        (Nat.lt_of_le_of_lt (Nat.sub_le _ _) hrounds)
      have hep' : r'.ep ≤ r'.data.length := by omega
      obtain ⟨ended, hread⟩ := readWithin_ended item r' (by simp [hitem]) hep' (hlen ▸ hrounds)
      have hwell := readWithin_ends rounds item r' ended hep' hread
      refine ⟨ended, hread, fun v next hv => ?_⟩
      subst hv
      have hnext : Onward r' next := hwell.onward
      exact ⟨by rw [hnext.data, hlen], hwell.moved v next rfl hhollow (by omega),
        hlen ▸ hnext.bound⟩

theorem readFieldsWithin_ended :
    ∀ (types : List RpcType) (r : PacketReader) (values : List RpcValue),
      (anyStuck types = true → r.ep = r.data.length) → r.ep ≤ r.data.length →
        r.data.length < rounds → ∃ ended, readFieldsWithin rounds types r values = some ended
  | [], _, _, _, _, _ => ⟨_, rfl⟩
  | ty :: types, r, values, hstuck, hep, hrounds => by
    obtain ⟨ended, hread⟩ :=
      readWithin_ended ty r (fun h => hstuck (by simp [anyStuck, h])) hep hrounds
    have hwell := readWithin_ends rounds ty r ended hep hread
    rw [readFieldsWithin, hread]
    cases ended with
    | value v next =>
      have hnext : Onward r next := hwell.onward
      have hdata := congrArg List.length hnext.data
      have hle := hnext.le
      have hbound := hnext.bound
      refine readFieldsWithin_ended types next _ (fun hrest => ?_) (hdata ▸ hbound) (by omega)
      -- the field took all bytes, or there were none to take
      cases hpasses : passes ty with
      | false => rw [hwell.used v next rfl hpasses, hdata]
      | true =>
        have hend := hstuck (by simp [anyStuck, hpasses, hrest])
        omega
    | error err next => exact ⟨_, rfl⟩
    | panics => exact ⟨_, rfl⟩

end

/-! ## Types that are not -/

mutual

theorem readWithin_hollow (rounds : ℕ) : ∀ (ty : RpcType) (r : PacketReader), hollow ty = true →
    ∃ v, readWithin rounds ty r = some (.value v r)
  | .struct types, r, h => readFieldsWithin_hollow rounds types r [] h

theorem readFieldsWithin_hollow (rounds : ℕ) :
    ∀ (types : List RpcType) (r : PacketReader) (values : List RpcValue), allHollow types = true →
      ∃ v, readFieldsWithin rounds types r values = some (.value v r)
  | [], _, _, _ => ⟨_, rfl⟩
  | ty :: types, r, values, h => by
    obtain ⟨hfirst, hrest⟩ := Bool.and_eq_true_iff.mp h
    obtain ⟨v, hread⟩ := readWithin_hollow rounds ty r hfirst
    rw [readFieldsWithin, hread]
    exact readFieldsWithin_hollow rounds types r _ hrest

end

/-- `bytes` are read to a value wherever they stand. -/
def Passed (ty : RpcType) (v : RpcValue) (bytes : Bytes) : Prop :=
  ∀ (rounds : ℕ) (pre post : Bytes),
    readWithin rounds ty ⟨pre ++ (bytes ++ post), pre.length⟩ =
      some (.value v ⟨pre ++ (bytes ++ post), pre.length + bytes.length⟩)

theorem passed_ubyte {wrap : UInt8 → RpcValue}
    (hread : ∀ rounds r, readWithin rounds ty r = some (.ofOption wrap r r.readUbyte)) :
    ∃ v bytes, Passed ty v bytes := by
  refine ⟨wrap 0, [0], fun rounds pre post => ?_⟩
  rw [hread, readUbyte_at]
  rfl

theorem passed_u16 {wrap : UInt16 → RpcValue}
    (hread : ∀ rounds r, readWithin rounds ty r = some (.ofOption wrap r r.readU16Be)) :
    ∃ v bytes, Passed ty v bytes := by
  refine ⟨wrap 0, toBeBytes 0, fun rounds pre post => ?_⟩
  rw [hread, readU16Be_at]
  rfl

theorem passed_int {wrap : ℤ → RpcValue}
    (hread : ∀ rounds r, readWithin rounds ty r = some (.ofExcept wrap r (r.readInt signed))) :
    ∃ v bytes, Passed ty v bytes := by
  obtain ⟨bytes, -, hbytes⟩ := readInt_at signed 0 fun _ => le_rfl
  refine ⟨wrap 0, bytes, fun rounds pre post => ?_⟩
  rw [hread, hbytes pre post signed (.inl rfl)]
  rfl

mutual

theorem exists_passed : ∀ ty : RpcType, passes ty = true → ∃ v bytes, Passed ty v bytes
  | .bool, _ | .s8, _ | .u8, _ | .uint8, _ => passed_ubyte fun _ _ => rfl
  | .u16, _ | .uint16, _ | .s16, _ => passed_u16 fun _ _ => rfl
  | .vSigned, _ | .vUnsigned, _ => passed_int fun _ _ => rfl
  | .string, _ => by
    refine ⟨.string "", "".toUTF8.toList ++ [0], fun rounds pre post => ?_⟩
    rw [readWithin, ReadEnd.sliced, if_pos (by simp), readString_at (by simp)]
    rfl
  | .enum values, h => by
    obtain ⟨bytes, -, hbytes⟩ := readInt_at false 0 fun _ => le_rfl
    refine ⟨.enum 0, bytes, fun rounds pre post => ?_⟩
    have hvalues : ¬ values.length ≤ 0 := by
      simpa [passes] using h
    rw [readWithin, ReadEnd.ofEnum, hbytes pre post false (.inl rfl)]
    simp [hvalues]
  | .struct types, h => by
    obtain ⟨values, bytes, hread⟩ := exists_passedFields types h
    refine ⟨.struct values, bytes, fun rounds pre post => ?_⟩
    rw [readWithin, hread rounds pre post [], List.nil_append]

theorem exists_passedFields : ∀ types : List RpcType, allPass types = true →
    ∃ (values : List RpcValue) (bytes : Bytes),
      ∀ (rounds : ℕ) (pre post : Bytes) (before : List RpcValue),
        readFieldsWithin rounds types ⟨pre ++ (bytes ++ post), pre.length⟩ before =
          some (.value (.struct (before ++ values))
            ⟨pre ++ (bytes ++ post), pre.length + bytes.length⟩)
  | [], _ => ⟨[], [], fun rounds pre post before => by simp [readFieldsWithin]⟩
  | ty :: types, h => by
    obtain ⟨hfirst, hrest⟩ := Bool.and_eq_true_iff.mp h
    obtain ⟨v, first, hread⟩ := exists_passed ty hfirst
    obtain ⟨values, rest, hreads⟩ := exists_passedFields types hrest
    refine ⟨v :: values, first ++ rest, fun rounds pre post before => ?_⟩
    have hnext := hreads rounds (pre ++ first) post (before ++ [v])
    simp only [List.append_assoc, List.length_append] at hnext
    rw [readFieldsWithin, List.append_assoc, hread]
    simp only [hnext, List.length_append, Nat.add_assoc, List.cons_append, List.nil_append]

end

/-- A loop over items that take no bytes, or one of whose items is read forever. -/
theorem readItems_none (hbytes : r.ep < r.data.length)
    (hitem : readItem r = none ∨ ∃ v, readItem r = some (.value v r)) (rounds : ℕ) :
    ∀ values, readItems readItem rounds r values = none := by
  induction rounds with
  | zero => exact fun _ => rfl
  | succ rounds ih =>
    intro values
    have hmore : r.hasUnprocessedBytes = true := decide_eq_true hbytes
    rw [readItems, if_pos hmore]
    rcases hitem with hread | ⟨v, hread⟩
    · rw [hread]
    · rw [hread]
      exact ih _

mutual

/-- **Reads that do not end.** -/
theorem exists_stuck : ∀ ty : RpcType, stuck ty = true →
    ∃ bytes : Bytes, ∀ (rounds : ℕ) (pre : Bytes),
      readWithin rounds ty ⟨pre ++ bytes, pre.length⟩ = none
  | .array item, h => by
    rcases Bool.or_eq_true_iff.mp h with hhollow | hstuck
    · refine ⟨[0], fun rounds pre => ?_⟩
      exact readItems_none (by simp) (.inr (readWithin_hollow rounds item _ hhollow)) rounds []
    · obtain ⟨bytes, hread⟩ := exists_stuck item hstuck
      have hne : bytes ≠ [] := by
        rintro rfl
        obtain ⟨ended, hended⟩ := readWithin_ended item ⟨[] ++ [], 0⟩
          (fun _ => rfl) le_rfl Nat.one_pos
        exact absurd (hended.symm.trans (hread 1 [])) (by simp)
      refine ⟨bytes, fun rounds pre => ?_⟩
      refine readItems_none ?_ (.inl (hread rounds pre)) rounds []
      have := List.length_pos_iff.mpr hne
      simpa using this
  | .struct types, h => by
    obtain ⟨bytes, hread⟩ := exists_stuckFields types h
    exact ⟨bytes, fun rounds pre => hread rounds pre []⟩

theorem exists_stuckFields : ∀ types : List RpcType, anyStuck types = true →
    ∃ bytes : Bytes, ∀ (rounds : ℕ) (pre : Bytes) (values : List RpcValue),
      readFieldsWithin rounds types ⟨pre ++ bytes, pre.length⟩ values = none
  | ty :: types, h => by
    rcases Bool.or_eq_true_iff.mp h with hfirst | hlater
    · obtain ⟨bytes, hread⟩ := exists_stuck ty hfirst
      refine ⟨bytes, fun rounds pre values => ?_⟩
      rw [readFieldsWithin, hread]
    · obtain ⟨hpasses, hrest⟩ := Bool.and_eq_true_iff.mp hlater
      obtain ⟨v, first, hpassed⟩ := exists_passed ty hpasses
      obtain ⟨bytes, hread⟩ := exists_stuckFields types hrest
      refine ⟨first ++ bytes, fun rounds pre values => ?_⟩
      have hnext := hread rounds (pre ++ first) (values ++ [v])
      rw [List.append_assoc, List.length_append] at hnext
      rw [readFieldsWithin, hpassed]
      exact hnext

end

/-! ## Both models of `read_type` -/

/-- What is left of an end for a caller who does not look at the reader behind an error. -/
def outcome : Option ReadEnd → ReadOutcome
  | some (.value v next) => .value v next
  | some (.error err _) => .error err
  | some .panics | none => .diverges

theorem outcome_ofOption (wrap : α → RpcValue) (result : Option (α × PacketReader)) :
    outcome (some (.ofOption wrap r result)) = .ofOption wrap result := by
  cases result <;> rfl

theorem outcome_ofExcept (wrap : α → RpcValue) (result : Except UnpackError (α × PacketReader)) :
    outcome (some (.ofExcept wrap r result)) = .ofExcept wrap result := by
  cases result <;> rfl

theorem outcome_ofEnum (len : ℕ) : outcome (some (.ofEnum len r)) = readEnum len r := by
  unfold ReadEnd.ofEnum readEnum
  cases r.readInt false with
  | error err => rfl
  | ok result =>
    dsimp only
    split_ifs <;> rfl

/-- The loop over items that take no bytes. -/
theorem readArray_hollow {readOne : PacketReader → ReadOutcome} (hbytes : r.ep < r.data.length)
    (hitem : readOne r = .value v r) (fuel : ℕ) :
    ∀ values, readArray readOne fuel r values = .diverges := by
  have hmore : r.hasUnprocessedBytes = true := decide_eq_true hbytes
  induction fuel with
  | zero => exact fun values => by rw [readArray, if_pos hmore]
  | succ fuel ih =>
    intro values
    rw [readArray_round fuel values hmore hitem]
    exact ih _

/-- The loop over items that take bytes: `fuel` is enough in one model, `rounds` in the other. -/
theorem readArray_eq {readOne : PacketReader → ReadOutcome} {len : ℕ}
    (hitem : ∀ r : PacketReader, r.data.length = len → r.ep < len →
      readOne r = outcome (readItem r) ∧ ∀ v next, readItem r = some (.value v next) →
        next.data.length = len ∧ r.ep < next.ep ∧ next.ep ≤ len) (fuel : ℕ) :
    ∀ (rounds : ℕ) (r : PacketReader) (values : List RpcValue), r.data.length = len → r.ep ≤ len →
      len - r.ep ≤ fuel → len - r.ep < rounds →
        readArray readOne fuel r values = outcome (readItems readItem rounds r values) := by
  induction fuel with
  | zero =>
    intro rounds r values hlen hep hfuel hrounds
    have hdone : r.hasUnprocessedBytes = false := decide_eq_false (by omega)
    rw [readArray_done 0 values hdone, readItems_done hdone (Nat.zero_lt_of_lt hrounds)]
    rfl
  | succ fuel ih =>
    intro rounds r values hlen hep hfuel hrounds
    obtain ⟨rounds, rfl⟩ := Nat.exists_eq_add_of_lt hrounds
    rw [readArray, readItems]
    split
    case isFalse => rfl
    case isTrue hbytes =>
      have hlt : r.ep < len := by
        rw [← hlen]
        exact of_decide_eq_true hbytes
      obtain ⟨hone, hnext⟩ := hitem r hlen hlt
      rw [hone]
      cases hread : readItem r with
      | none => rfl
      | some ended =>
        cases ended with
        | value v next =>
          obtain ⟨hdata, hmoved, hbound⟩ := hnext v next hread
          exact ih _ next _ hdata hbound (by omega) (by omega)
        | error err next => rfl
        | panics => rfl

mutual

/-- **Both models of `read_type`** agree in the value and the error, wherever the reader stands in
the data.
SOURCE: rpc/tools.rs:131-206 -/
theorem readType_eq_readWithin :
    ∀ (ty : RpcType) (r : PacketReader), r.ep ≤ r.data.length → r.data.length < rounds →
      readType ty r = outcome (readWithin rounds ty r)
  | .bool, _, _, _ | .s8, _, _, _ | .u8, _, _, _ | .uint8, _, _, _ | .u16, _, _, _
  | .uint16, _, _, _ | .s16, _, _, _ => (outcome_ofOption _ _).symm
  | .vSigned, _, _, _ | .vUnsigned, _, _, _ => (outcome_ofExcept _ _).symm
  | .enum values, _, _, _ => (outcome_ofEnum values.length).symm
  | .bytes, r, hep, _ => by
    rw [readWithin, ReadEnd.sliced, if_pos hep]
    rfl
  | .string, r, hep, _ => by
    rw [readWithin, ReadEnd.sliced, if_pos hep, outcome_ofExcept]
    rfl
  | .struct types, r, hep, hrounds => readFields_eq_readFieldsWithin types r [] hep hrounds
  | .array item, r, hep, hrounds => by
    have hsame := fun (r' : PacketReader) (hlen : r'.data.length = r.data.length)
        (hlt : r'.ep < r.data.length) =>
      readType_eq_readWithin item r' (by omega) (hlen ▸ hrounds)
    rcases Bool.eq_false_or_eq_true (hollow item) with hhollow | htakes
    · obtain ⟨v, hread⟩ := readWithin_hollow rounds item r hhollow
      rw [readType, readWithin]
      by_cases hbytes : r.ep < r.data.length
      · rw [readArray_hollow hbytes ((hsame r rfl hbytes).trans (congrArg outcome hread)),
          readItems_none hbytes (.inr ⟨v, hread⟩)]
        rfl
      · rw [readArray_done _ [] (decide_eq_false hbytes),
          readItems_done (decide_eq_false hbytes) (Nat.zero_lt_of_lt hrounds)]
        rfl
    · refine readArray_eq (fun r' hlen hlt => ⟨hsame r' hlen hlt, fun v next hread => ?_⟩) _ rounds
        r [] rfl hep le_rfl (Nat.lt_of_le_of_lt (Nat.sub_le _ _) hrounds)
      have hwell := readWithin_ends rounds item r' _ (by omega) hread
      have hnext : Onward r' next := hwell.onward
      exact ⟨by rw [hnext.data, hlen], hwell.moved v next rfl htakes (by omega),
        hlen ▸ hnext.bound⟩

theorem readFields_eq_readFieldsWithin :
    ∀ (types : List RpcType) (r : PacketReader) (values : List RpcValue), r.ep ≤ r.data.length →
      r.data.length < rounds →
        readFields types r values = outcome (readFieldsWithin rounds types r values)
  | [], _, _, _, _ => rfl
  | ty :: types, r, values, hep, hrounds => by
    rw [readFields, readFieldsWithin, readType_eq_readWithin ty r hep hrounds]
    cases hread : readWithin rounds ty r with
    | none => rfl
    | some ended =>
      cases ended with
      | value v next =>
        have hnext : Onward r next := (readWithin_ends rounds ty r _ hep hread).onward
        have hdata := congrArg List.length hnext.data
        exact readFields_eq_readFieldsWithin types next _ (hdata ▸ hnext.bound) (by omega)
      | error err next => rfl
      | panics => rfl

end

/-! ## Reading to an end -/

/-- From every place in the data, enough rounds bring the read of `ty` to an end; it does not panic,
and the reader has not been moved back or behind the data. -/
def ReadsToEnd (ty : RpcType) : Prop :=
  ∀ r : PacketReader, r.ep ≤ r.data.length →
    ∃ enough ended, (∀ rounds, enough ≤ rounds → readWithin rounds ty r = some ended) ∧
      LeavesOnward r ended

/-- **Reading ends.**  The types that are read to an end in every packet are those where no array
of values without bytes can be reached with bytes left.
SOURCE: rpc/tools.rs:131-206, packet.rs:152-241, rpc/service.rs:218-225 -/
theorem readsToEnd_iff (ty : RpcType) : ReadsToEnd ty ↔ stuck ty = false := by
  constructor
  · intro h
    by_contra hstuck
    obtain ⟨bytes, hnone⟩ := exists_stuck ty (by simpa using hstuck)
    obtain ⟨enough, ended, hended, -⟩ := h ⟨[] ++ bytes, 0⟩ (Nat.zero_le _)
    exact absurd ((hended enough le_rfl).symm.trans (hnone enough [])) (by simp)
  · intro hstuck r hep
    obtain ⟨ended, hread⟩ := readWithin_ended ty r (by simp [hstuck]) hep (Nat.lt_succ_self _)
    exact ⟨_, ended, fun rounds hmore => readWithin_mono hmore ty r ended hread,
      (readWithin_ends _ ty r ended hep hread).onward⟩

/-- An array of structs without fields, in a packet with one byte. -/
theorem not_readsToEnd_array_of_nothing : ¬ ReadsToEnd (.array (.struct [])) := by
  intro h
  obtain ⟨enough, ended, hended, -⟩ := h ⟨[0], 0⟩ (Nat.zero_le _)
  have hnone : readWithin enough (.array (.struct [])) ⟨[0], 0⟩ = none :=
    readItems_none Nat.one_pos (.inr ⟨_, rfl⟩) enough []
  exact absurd ((hended enough le_rfl).symm.trans hnone) (by simp)

end Uartbus.Analysis

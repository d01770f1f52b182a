import Uartbus.Model.PacketStores

/-!
# Replies of several parts

`rpc_append_arr` compares the size that is left with the size of the next part the wrong way
round.  It therefore copies one part that fills the buffer, and of several parts at best the first.
`rpc_response` does not look at what it returns.
-/

set_option autoImplicit false

namespace Uartbus.Analysis

open Lib Model

/-- The parts one after another. -/
def joined (parts : List ResponsePart) : Bytes := parts.flatMap (·.data)

/-- The parts that fit are copied and counted; otherwise the call fails and keeps to the
buffer. -/
structure AppendsParts (memory : ℕ → UInt8) (dst : ℕ) (size : UInt8) (parts : List ResponsePart) :
    Prop where
  fits : (joined parts).length ≤ size.toNat →
    rpcAppendArr dst size parts (.untouched memory) =
      (Int16.ofNat (joined parts).length,
        { memory := overlay memory dst (joined parts)
          written := List.range' dst (joined parts).length })
  short : size.toNat < (joined parts).length →
    (rpcAppendArr dst size parts (.untouched memory)).1 = Int16.ofInt (-EMSGSIZE) ∧
      (rpcAppendArr dst size parts (.untouched memory)).2.Within (dst + size.toNat)

/-- The answer is the path of the request and the parts, whatever the stack holds. -/
def RespondsWithAll (req : RpcRequest) (parts : List ResponsePart) : Prop :=
  ∀ stack, rpcResponseData stack req parts = req.payload.take req.procPtr ++ joined parts

/-! ## The loop -/

@[simp] theorem joined_cons (part : ResponsePart) (parts : List ResponsePart) :
    joined (part :: parts) = part.data ++ joined parts := rfl

theorem size_toNat (part : ResponsePart) : part.size.toNat = part.data.length := by
  unfold ResponsePart.size
  exact Nat.mod_eq_of_lt part.size_lt

variable {dst ds : ℕ} {size : UInt8} {s : Stored UInt8} {part : ResponsePart}
  {parts : List ResponsePart}

/-- A part that leaves room in the buffer ends the loop. -/
theorem rpcAppendFrom_less (h : part.data.length < size.toNat) :
    rpcAppendFrom dst size ds s (part :: parts) = (Int16.ofInt (-EMSGSIZE), s) := by
  have hgt : size > part.size := by
    rw [gt_iff_lt, UInt8.lt_iff_toNat_lt, size_toNat]
    exact h
  rw [rpcAppendFrom, if_pos hgt]

theorem rpcAppendFrom_copies (h : size.toNat ≤ part.data.length) :
    rpcAppendFrom dst size ds s (part :: parts) =
      rpcAppendFrom (dst + part.data.length) (size - part.size) (ds + part.data.length)
        (s.storeAll dst part.data) parts := by
  have hle : ¬ size > part.size := by
    rw [gt_iff_lt, UInt8.lt_iff_toNat_lt, size_toNat]
    exact Nat.not_lt.mpr h
  rw [rpcAppendFrom, if_neg hle, size_toNat]

/-- A part that fills the buffer leaves the size 0. -/
theorem sub_size_of_fills (h : part.data.length = size.toNat) : size - part.size = 0 := by
  have hsize : part.size = size := by
    rw [← UInt8.toNat_inj, size_toNat]
    exact h
  rw [hsize, UInt8.sub_self]

/-- Empty parts change nothing when nothing is left. -/
theorem rpcAppendFrom_empty (h : joined parts = []) :
    rpcAppendFrom dst 0 ds s parts = (Int16.ofNat ds, s) := by
  induction parts generalizing dst ds s with
  | nil => rfl
  | cons part parts ih =>
    rw [joined_cons, List.append_eq_nil_iff] at h
    obtain ⟨hpart, hparts⟩ := h
    have hfills : part.data.length = (0 : UInt8).toNat := by rw [hpart]; rfl
    rw [rpcAppendFrom_copies (Nat.le_of_eq hfills.symm), sub_size_of_fills hfills, hpart]
    exact ih hparts

/-- What has been stored stays stored. -/
theorem mem_written_rpcAppendFrom {i : ℕ} (h : i ∈ s.written) :
    i ∈ (rpcAppendFrom dst size ds s parts).2.written := by
  induction parts generalizing dst size ds s with
  | nil => exact h
  | cons part parts ih =>
    rw [rpcAppendFrom]
    split
    · exact h
    · refine ih ?_
      rw [Stored.storeAll_written]
      exact List.mem_append_left _ h

/-- Every cell of a part that is copied is stored to. -/
theorem mem_written_copies {i : ℕ} (h : size.toNat ≤ part.data.length)
    (hi : i < part.data.length) :
    dst + i ∈ (rpcAppendFrom dst size ds s (part :: parts)).2.written := by
  rw [rpcAppendFrom_copies h]
  apply mem_written_rpcAppendFrom
  rw [Stored.storeAll_written, List.mem_append, List.mem_range'_1]
  omega

/-- With nothing left, the first part that is not empty is stored all the same. -/
theorem mem_written_full (h : joined parts ≠ []) :
    dst ∈ (rpcAppendFrom dst 0 ds s parts).2.written := by
  induction parts generalizing dst ds s with
  | nil => exact absurd rfl h
  | cons part parts ih =>
    by_cases hpart : part.data = []
    · have hfills : part.data.length = (0 : UInt8).toNat := by rw [hpart]; rfl
      rw [rpcAppendFrom_copies (Nat.le_of_eq hfills.symm), sub_size_of_fills hfills, hpart]
      exact ih (by rwa [joined_cons, hpart, List.nil_append] at h)
    · exact mem_written_copies (Nat.zero_le _) (List.length_pos_of_ne_nil hpart)

/-! ## The calls -/

theorem emsgsize_ne_ofNat {n : ℕ} (h : n < 256) : Int16.ofInt (-EMSGSIZE) ≠ Int16.ofNat n := by
  intro heq
  have hint := congrArg Int16.toInt heq
  rw [Int16.toInt_ofNat_of_lt (by omega)] at hint
  have hneg : (Int16.ofInt (-EMSGSIZE)).toInt = -90 := by decide
  omega

variable {memory : ℕ → UInt8}

/-- The first part fills the buffer and the others are empty. -/
theorem rpcAppendArr_fills (hfirst : part.data.length = size.toNat) (hrest : joined parts = []) :
    rpcAppendArr dst size (part :: parts) s =
      (Int16.ofNat part.data.length, s.storeAll dst part.data) := by
  unfold rpcAppendArr
  rw [rpcAppendFrom_copies (Nat.le_of_eq hfirst.symm), sub_size_of_fills hfirst,
    rpcAppendFrom_empty hrest, Nat.zero_add]

theorem appendsParts_nil : AppendsParts memory dst size [] := by
  refine ⟨fun _ => ?_, fun h => absurd h (Nat.not_lt_zero _)⟩
  refine Prod.ext rfl ?_
  change Stored.untouched memory = ⟨overlay memory dst [], []⟩
  rw [overlay_nil]
  rfl

/-- A buffer that is large enough. -/
theorem appendsParts_cons_large (hfit : (joined (part :: parts)).length ≤ size.toNat) :
    AppendsParts memory dst size (part :: parts) ↔ part.data.length = size.toNat := by
  have hlength : (joined (part :: parts)).length = part.data.length + (joined parts).length := by
    rw [joined_cons, List.length_append]
  constructor
  · rintro ⟨hfits, -⟩
    by_contra hne
    have hless : rpcAppendArr dst size (part :: parts) (.untouched memory) = _ :=
      rpcAppendFrom_less (by omega)
    have hresult := (congrArg Prod.fst hless).symm.trans (congrArg Prod.fst (hfits hfit))
    have hbound := size.toNat_lt
    exact emsgsize_ne_ofNat (by omega) hresult
  · intro hfirst
    have hrest : joined parts = [] := List.eq_nil_of_length_eq_zero (by omega)
    refine ⟨fun _ => ?_, fun h => absurd h (Nat.not_lt.mpr hfit)⟩
    rw [rpcAppendArr_fills hfirst hrest, joined_cons, hrest, List.append_nil,
      Stored.storeAll_untouched]

/-- A buffer that is too small. -/
theorem appendsParts_cons_small (hshort : size.toNat < (joined (part :: parts)).length) :
    AppendsParts memory dst size (part :: parts) ↔ part.data.length < size.toNat := by
  constructor
  · rintro ⟨-, hkeeps⟩
    obtain ⟨-, hwithin⟩ := hkeeps hshort
    by_contra hnot
    rcases Nat.lt_or_eq_of_le (Nat.not_lt.mp hnot) with hlarger | hequal
    · have hstored := hwithin _ (mem_written_copies (Nat.le_of_lt hlarger) hlarger)
      omega
    · have hrest : joined parts ≠ [] := by
        intro hnil
        rw [joined_cons, hnil, List.append_nil] at hshort
        omega
      unfold rpcAppendArr at hwithin
      rw [rpcAppendFrom_copies (Nat.le_of_eq hequal), sub_size_of_fills hequal.symm,
        ← hequal] at hwithin
      exact absurd (hwithin _ (mem_written_full hrest)) (Nat.lt_irrefl _)
  · intro hless
    have hresult : rpcAppendArr dst size (part :: parts) (.untouched memory) = _ :=
      rpcAppendFrom_less hless
    refine ⟨fun h => absurd hshort (Nat.not_lt.mpr h), fun _ => ?_⟩
    rw [hresult]
    exact ⟨rfl, Stored.within_untouched memory⟩

/-! ## The answer -/

theorem rpcAppendSize_eq (parts : List ResponsePart) :
    rpcAppendSize parts = UInt8.ofNat (joined parts).length := by
  have hsum : ∀ ds, parts.foldl (fun ds part => ds + part.size.toNat) ds =
      ds + (joined parts).length := by
    induction parts with
    | nil => exact fun _ => rfl
    | cons part parts ih =>
      intro ds
      rw [List.foldl_cons, ih, size_toNat, joined_cons, List.length_append, Nat.add_assoc]
  unfold rpcAppendSize
  rw [hsum, Nat.zero_add]

variable {req : RpcRequest}

theorem path_length (hpath : req.procPtr ≤ req.payload.length) :
    (req.payload.take req.procPtr).length = req.procPtr := by
  rw [List.length_take, Nat.min_eq_left hpath]

/-- The answer in terms of what `rpc_append_arr` leaves on the stack. -/
theorem rpcResponseData_eq (stack : ℕ → UInt8) (hfit : (joined parts).length + req.procPtr < 256) :
    rpcResponseData stack req parts =
      readRange (rpcAppendArr req.procPtr (UInt8.ofNat (joined parts).length) parts
        ((Stored.untouched stack).storeAll 0 (req.payload.take req.procPtr))).2.memory 0
        (req.procPtr + (joined parts).length) := by
  have hsize : (UInt8.ofNat (joined parts).length).toNat = (joined parts).length := by
    rw [UInt8.toNat_ofNat']
    omega
  unfold rpcResponseData
  simp only [rpcAppendSize_eq, hsize]
  rw [Nat.mod_eq_of_lt hfit, Nat.add_comm]

/-- A first part that is all of the response is sent whole. -/
theorem respondsWithAll_of_fills (hpath : req.procPtr ≤ req.payload.length)
    (hfit : (joined (part :: parts)).length + req.procPtr < 256)
    (hfirst : part.data.length = (joined (part :: parts)).length) :
    RespondsWithAll req (part :: parts) := by
  intro stack
  have hrest : joined parts = [] := by
    rw [joined_cons, List.length_append] at hfirst
    exact List.eq_nil_of_length_eq_zero (by omega)
  have hjoined : joined (part :: parts) = part.data := by
    rw [joined_cons, hrest, List.append_nil]
  have hsize : part.data.length = (UInt8.ofNat (joined (part :: parts)).length).toNat := by
    rw [UInt8.toNat_ofNat', hjoined]
    exact (Nat.mod_eq_of_lt part.size_lt).symm
  have hoverlay := overlay_append stack 0 (req.payload.take req.procPtr) part.data
  rw [Nat.zero_add, path_length hpath] at hoverlay
  have hread := readRange_overlay stack 0 (req.payload.take req.procPtr ++ part.data)
  rw [List.length_append, path_length hpath, Nat.zero_add, hoverlay] at hread
  rw [rpcResponseData_eq stack hfit, rpcAppendArr_fills hsize hrest, Stored.storeAll_memory,
    Stored.storeAll_memory, hjoined]
  exact hread

theorem respondsWithAll_nil (hpath : req.procPtr ≤ req.payload.length)
    (hfit : (joined []).length + req.procPtr < 256) : RespondsWithAll req [] := by
  intro stack
  rw [rpcResponseData_eq stack hfit]
  change readRange (Stored.storeAll _ 0 _).memory 0 (req.procPtr + 0) = _ ++ []
  have hread := readRange_overlay stack 0 (req.payload.take req.procPtr)
  rw [path_length hpath, Nat.zero_add] at hread
  rw [Stored.storeAll_memory, List.append_nil]
  exact hread

/-- The parts are not copied, and the answer shows the stack instead of them. -/
theorem not_respondsWithAll (hpath : req.procPtr ≤ req.payload.length)
    (hfit : (joined (part :: parts)).length + req.procPtr < 256)
    (hfirst : part.data.length ≠ (joined (part :: parts)).length) :
    ¬ RespondsWithAll req (part :: parts) := by
  intro h
  have hless : part.data.length < (joined (part :: parts)).length := by
    rw [joined_cons, List.length_append] at hfirst ⊢
    omega
  have hsize : part.data.length < (UInt8.ofNat (joined (part :: parts)).length).toNat := by
    rw [UInt8.toNat_ofNat']
    omega
  generalize hbytes : joined (part :: parts) = bytes at *
  obtain ⟨b, rest, rfl⟩ := List.exists_cons_of_length_pos (Nat.zero_lt_of_lt hless)
  have hanswer := h fun _ => b + 1
  rw [rpcResponseData_eq _ (by rwa [hbytes]), hbytes] at hanswer
  unfold rpcAppendArr at hanswer
  rw [rpcAppendFrom_less hsize, Stored.storeAll_memory] at hanswer
  have hcell := congrArg (·[req.procPtr]?) hanswer
  have hpathLength := path_length hpath
  have houtside : overlay (Stored.untouched fun _ => b + 1).memory 0
      (req.payload.take req.procPtr) req.procPtr = b + 1 :=
    overlay_of_outside (.inr (by omega))
  simp only [readRange, Nat.sub_zero, List.getElem?_map] at hcell
  rw [List.getElem?_range' (by simp only [List.length_cons]; omega), Option.map_some, Nat.zero_add,
    Nat.one_mul, houtside, List.getElem?_append_right (by omega), hpathLength, Nat.sub_self,
    List.getElem?_cons_zero, Option.some.injEq] at hcell
  exact absurd hcell (by simp)

/-- Replies are put together right exactly when the first part decides it alone: it fills the
buffer of a reply that fits, and it leaves room in one that is too small.
SOURCE: rpc.c:9-46, ub_bootloader.c:39-59 -/
theorem multiPart_iff (memory : ℕ → UInt8) (dst : ℕ) (size : UInt8) (parts : List ResponsePart)
    (req : RpcRequest) (hpath : req.procPtr ≤ req.payload.length) :
    (AppendsParts memory dst size parts ↔
      ∀ part ∈ parts.head?,
        if (joined parts).length ≤ size.toNat then part.data.length = size.toNat
        else part.data.length < size.toNat) ∧
    ((joined parts).length + req.procPtr < 256 →
      (RespondsWithAll req parts ↔
        ∀ part ∈ parts.head?, part.data.length = (joined parts).length)) := by
  cases parts with
  | nil =>
    have hnone : ∀ P : ResponsePart → Prop, ∀ q ∈ ([] : List ResponsePart).head?, P q := by
      intro P q hq
      cases hq
    exact ⟨⟨fun _ => hnone _, fun _ => appendsParts_nil⟩,
      fun hfit => ⟨fun _ => hnone _, fun _ => respondsWithAll_nil hpath hfit⟩⟩
  | cons part parts =>
    have hhead : ∀ P : ResponsePart → Prop, (∀ q ∈ (part :: parts).head?, P q) ↔ P part := by
      intro P
      simp
    rw [hhead, hhead]
    constructor
    · split
      next hfit => exact appendsParts_cons_large hfit
      next hfit => exact appendsParts_cons_small (Nat.not_le.mp hfit)
    · intro hfit
      constructor
      · intro h
        by_contra hne
        exact not_respondsWithAll hpath hfit hne h
      · exact respondsWithAll_of_fills hpath hfit

/-- A request for `1:2` that has been read to its end. -/
def partRequest : RpcRequest where
  toAddress := 5
  fromAddress := 3
  payload := [1, 2]
  procPtr := 2
  size_lt := by decide

/-- One part of two bytes. -/
theorem multiPart_single :
    AppendsParts (fun _ => 0) 0 2 [⟨[7, 8], by decide⟩] ∧
      RespondsWithAll partRequest [⟨[7, 8], by decide⟩] := by
  obtain ⟨happends, hresponds⟩ :=
    multiPart_iff (fun _ => 0) 0 2 [⟨[7, 8], by decide⟩] partRequest (by decide)
  exact ⟨happends.mpr (by simp [joined]), (hresponds (by decide)).mpr (by simp [joined])⟩

/-- Two parts of one byte each. -/
def twoParts : List ResponsePart := [⟨[7], by decide⟩, ⟨[8], by decide⟩]

/-- Two parts of one byte do not arrive together. -/
theorem twoParts_lost :
    ¬ AppendsParts (fun _ => 0) 0 2 twoParts ∧ ¬ RespondsWithAll partRequest twoParts := by
  constructor
  · unfold twoParts
    rw [appendsParts_cons_large (by decide)]
    decide
  · exact not_respondsWithAll (by decide) (by decide) (by decide)

end Uartbus.Analysis

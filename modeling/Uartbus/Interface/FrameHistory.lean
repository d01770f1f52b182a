import Uartbus.Model.Reception

/-!
# Frames in the callbacks

The callbacks of the link layer read as frames, without the buffer of the host: the bytes since
a `receive_start` are the frame that is being received, and its `receive_end` makes it the last
frame, until something else starts on the bus.
-/

set_option autoImplicit false

namespace Uartbus.Interface

open Model

structure FrameView where
  /-- The bytes of the frame that is being received. -/
  current : Option Bytes
  /-- The frame that was received last, if nothing has started since. -/
  last : Option Bytes
  deriving DecidableEq, Repr

/-- One more callback. -/
def FrameView.next (v : FrameView) : HostCallback → FrameView
  | .byte b => { v with current := v.current.map fun bytes => bytes ++ [b] }
  | .event .receiveStart => ⟨some [], none⟩
  | .event .receiveEnd => ⟨none, v.current⟩
  | .event .collisionStart | .event .sendEnd => ⟨none, none⟩
  | .event .nothing | .event .sendStart | .event .collisionEnd => v

def frameView (seen : List HostCallback) : FrameView := seen.foldl FrameView.next ⟨none, none⟩

theorem frameView_concat (seen : List HostCallback) (c : HostCallback) :
    frameView (seen ++ [c]) = (frameView seen).next c := by
  simp [frameView]

/-- The order in which the link layer calls: a `receive_end` ends a frame, and a byte belongs to a
frame, or no frame has been received so far. -/
def InLinkOrder (v : FrameView) : HostCallback → Prop
  | .byte _ => v.current ≠ none ∨ v.last = none
  | .event e => e = .receiveEnd → v.current ≠ none

instance decidableInLinkOrder (v : FrameView) : ∀ c, Decidable (InLinkOrder v c)
  | .byte _ => inferInstanceAs (Decidable (_ ∨ _))
  | .event _ => inferInstanceAs (Decidable (_ → _))

/-- `dispatch` does not return between the first byte of a frame and the end of the frame. -/
def ReturnsClear (v : FrameView) : Prop := v.current = none ∨ v.current = some []

instance decidableReturnsClear (v : FrameView) : Decidable (ReturnsClear v) :=
  inferInstanceAs (Decidable (_ ∨ _))

/-- A step of the host as the link layer makes it, in which `dispatch` does not return in the
middle of a frame. -/
def Undisturbed (r : Reception) : ReceptionAction → Prop
  | .callback c => InLinkOrder (frameView r.seen) c
  | .tryDispatch => True
  | .returns => ReturnsClear (frameView r.seen)

instance decidableUndisturbed (r : Reception) : ∀ a, Decidable (Undisturbed r a)
  | .callback c => decidableInLinkOrder (frameView r.seen) c
  | .tryDispatch => isTrue trivial
  | .returns => decidableReturnsClear (frameView r.seen)

end Uartbus.Interface

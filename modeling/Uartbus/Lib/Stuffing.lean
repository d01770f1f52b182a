import Uartbus.Lib.Transducer

/-!
# Frames with doubled escape symbols

A frame is a list of symbols in which every escape symbol is doubled, followed by the escape
symbol and another symbol.  `Unstuffer` is a machine that takes such frames out of a stream,
with a store of any kind: it may do something before each symbol (`prepare`), it stores a
symbol, and it cuts at the end of a frame.  Over a stream of whole frames it does what `take`
does with the contents (`feed_frames`), wherever the escape symbols are.  The machine that only
collects symbols gives back the contents (`collector_feed_frames`).
-/

set_option autoImplicit false

namespace Uartbus.Lib

variable {α σ β : Type} [DecidableEq α]

/-- The symbols with every escape symbol doubled. -/
def stuff (esc : α) (l : List α) : List α := l.flatMap fun a => if a = esc then [esc, a] else [a]

/-- The frame of a list of symbols. -/
def frame (esc stop : α) (l : List α) : List α := stuff esc l ++ [esc, stop]

@[simp] theorem stuff_nil (esc : α) : stuff esc [] = [] := rfl

theorem stuff_cons (esc a : α) (l : List α) :
    stuff esc (a :: l) = (if a = esc then [esc, a] else [a]) ++ stuff esc l := by
  simp [stuff]

/-- A machine that takes frames out of a stream. -/
structure Unstuffer (α σ β : Type) where
  esc : α
  /-- Behind an escape symbol, the symbol ends the frame. -/
  ends : α → Bool
  /-- What is done before a symbol is looked at. -/
  prepare : σ → σ
  store : σ → α → σ
  /-- The store for the next frame, and what the frame gives. -/
  cut : σ → σ × β
  esc_stays : ends esc = false
  prepare_prepare : ∀ s, prepare (prepare s) = prepare s

namespace Unstuffer

variable (d : Unstuffer α σ β)

/-- One symbol; the flag says that an escape symbol has been read and is not decided yet. -/
def step (s : Bool × σ) (a : α) : (Bool × σ) × List β :=
  let prepared := d.prepare s.2
  if s.1 then
    if d.ends a then ((false, (d.cut prepared).1), [(d.cut prepared).2])
    else ((false, d.store prepared a), [])
  else if a = d.esc then ((true, prepared), [])
  else ((false, d.store prepared a), [])

def feed (s : Bool × σ) (l : List α) : (Bool × σ) × List β := transduce d.step s l

/-- The store with the symbols added. -/
def fill (s : σ) (l : List α) : σ := l.foldl (fun s a => d.store (d.prepare s) a) s

/-- A whole frame: what its content does to the store, and what it gives. -/
def take (s : σ) (l : List α) : σ × β := d.cut (d.prepare (d.fill s l))

omit [DecidableEq α] in
@[simp] theorem fill_nil (s : σ) : d.fill s [] = s := rfl

omit [DecidableEq α] in
theorem fill_cons (s : σ) (a : α) (l : List α) :
    d.fill s (a :: l) = d.fill (d.store (d.prepare s) a) l := rfl

omit [DecidableEq α] in
theorem fill_append (s : σ) (l m : List α) : d.fill s (l ++ m) = d.fill (d.fill s l) m :=
  List.foldl_append

/-- One symbol of the content, as it stands in the stream. -/
theorem feed_symbol (s : σ) (a : α) :
    d.feed (false, s) (if a = d.esc then [d.esc, a] else [a]) =
      ((false, d.store (d.prepare s) a), []) := by
  by_cases h : a = d.esc
  · subst h
    simp [feed, transduce_cons, step, d.esc_stays, d.prepare_prepare]
  · simp [feed, transduce_cons, step, h]

/-- The content of a frame goes to the store and gives nothing yet. -/
theorem feed_stuff (s : σ) (l : List α) :
    d.feed (false, s) (stuff d.esc l) = ((false, d.fill s l), []) := by
  induction l generalizing s with
  | nil => rfl
  | cons a l ih =>
    have hsymbol := d.feed_symbol s a
    unfold feed at *
    rw [stuff_cons, transduce_append, hsymbol, ih, fill_cons]
    rfl

variable {stop : α}

theorem feed_frame (hstop : d.ends stop = true) (s : σ) (l : List α) :
    d.feed (false, s) (frame d.esc stop l) = ((false, (d.take s l).1), [(d.take s l).2]) := by
  have hcontent := d.feed_stuff s l
  unfold feed at *
  rw [frame, transduce_append, hcontent]
  simp [transduce_cons, step, hstop, take, d.prepare_prepare]

/-- A stream of frames is taken frame by frame. -/
theorem feed_frames (hstop : d.ends stop = true) (s : σ) (ls : List (List α)) :
    d.feed (false, s) (ls.flatMap (frame d.esc stop)) =
      ((false, (transduce (fun s l => ((d.take s l).1, [(d.take s l).2])) s ls).1),
        (transduce (fun s l => ((d.take s l).1, [(d.take s l).2])) s ls).2) := by
  induction ls generalizing s with
  | nil => rfl
  | cons l ls ih =>
    have hframe := d.feed_frame hstop s l
    unfold feed at *
    rw [List.flatMap_cons, transduce_append, hframe, ih, transduce_cons]

/-! ## Collecting the symbols -/

/-- The machine that collects the symbols of a frame and gives them at its end. -/
def collector (esc : α) (ends : α → Bool) (h : ends esc = false) :
    Unstuffer α (List α) (List α) where
  esc := esc
  ends := ends
  prepare l := l
  store l a := l ++ [a]
  cut l := ([], l)
  esc_stays := h
  prepare_prepare _ := rfl

section Collector

variable {esc : α} {ends : α → Bool} {h : ends esc = false}

omit [DecidableEq α] in
theorem collector_fill (s l : List α) : (collector esc ends h).fill s l = s ++ l := by
  induction l generalizing s with
  | nil => simp
  | cons a l ih =>
    rw [fill_cons, ih]
    simp [collector]

/-- The content of a frame is collected. -/
theorem collector_feed_stuff (s l : List α) :
    (collector esc ends h).feed (false, s) (stuff esc l) = ((false, s ++ l), []) := by
  have hfeed := (collector esc ends h).feed_stuff s l
  rwa [collector_fill] at hfeed

/-- The end of a frame gives what was collected. -/
theorem collector_feed_end (hstop : (collector esc ends h).ends stop = true) (s : List α) :
    (collector esc ends h).feed (false, s) [esc, stop] = ((false, []), [s]) := by
  have hfeed := (collector esc ends h).feed_frame hstop s []
  unfold take at hfeed
  rwa [collector_fill, List.append_nil] at hfeed

/-- The contents of a stream of frames. -/
theorem collector_feed_frames (hstop : (collector esc ends h).ends stop = true)
    (ls : List (List α)) :
    (collector esc ends h).feed (false, []) (ls.flatMap (frame esc stop)) =
      ((false, []), ls) := by
  induction ls with
  | nil => rfl
  | cons l ls ih =>
    have hcontent := collector_feed_stuff (h := h) [] l
    have hend := collector_feed_end hstop l
    unfold feed at *
    rw [List.flatMap_cons, frame, transduce_append, transduce_append, hcontent, List.nil_append,
      hend, ih]
    rfl

end Collector

end Unstuffer

end Uartbus.Lib

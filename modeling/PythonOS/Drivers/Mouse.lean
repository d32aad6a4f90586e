import Mathlib.Data.List.Basic

/-!
# PythonOS.Drivers.Mouse

The framing of the PS/2 mouse driver: `handle_irq` collects three bytes and takes them for a packet
if bit 3 of the first one is set.

If it is not set all three bytes are dropped, so the next packet is looked for three bytes later:
the driver never moves by one byte. Once it is misaligned by one or two bytes it stays so
(`Slipped`), drops every packet and sends no more events.
-/

namespace PythonOS.Drivers

open List

def pktLbtn : UInt8 := 0x01
def pktRbtn : UInt8 := 0x02
def pktMbtn : UInt8 := 0x04
def pktXSign : UInt8 := 0x10
def pktYSign : UInt8 := 0x20

/-- `b & mask` as a condition. -/
def hasBit (b mask : UInt8) : Bool := b &&& mask != 0

structure Buttons where
  lbtn : Bool := false
  rbtn : Bool := false
  mbtn : Bool := false
  deriving Repr, DecidableEq

structure MouseEvent extends Buttons where
  dx : Int := 0
  dy : Int := 0
  buttonChanged : UInt8 := 0
  pressed : Bool := false
  deriving Repr, DecidableEq

structure Packet where
  b0 : UInt8
  b1 : UInt8
  b2 : UInt8

namespace Packet

def buttons (p : Packet) : Buttons :=
  ⟨hasBit p.b0 pktLbtn, hasBit p.b0 pktRbtn, hasBit p.b0 pktMbtn⟩

/-- The events of a packet: the movement, and one for each button that was different. -/
def events (p : Packet) (was : Buttons) : List MouseEvent :=
  let dx : Int := if hasBit p.b0 pktXSign then p.b1.toNat - 256 else p.b1.toNat
  let dy : Int := -(if hasBit p.b0 pktYSign then (p.b2.toNat : Int) - 256 else p.b2.toNat)
  let changed (mask : UInt8) (was now : Bool) : List MouseEvent :=
    if was ≠ now then [{ p.buttons with buttonChanged := mask, pressed := now }] else []
  (if dx ≠ 0 ∨ dy ≠ 0 then [{ p.buttons with dx, dy }] else []) ++
    (changed pktLbtn was.lbtn p.buttons.lbtn ++ (changed pktRbtn was.rbtn p.buttons.rbtn ++
      changed pktMbtn was.mbtn p.buttons.mbtn))

/-- Bit 3 is set in the first byte and in no other one. -/
def WellFormed (p : Packet) : Prop :=
  hasBit p.b0 0x08 = true ∧ hasBit p.b1 0x08 = false ∧ hasBit p.b2 0x08 = false

def bytes (p : Packet) : List UInt8 := [p.b0, p.b1, p.b2]

end Packet

/-- The driver; `sent` are the events its subscribers were called with. -/
structure MouseDriver where
  buf : List UInt8 := []
  buttons : Buttons := {}
  sent : List MouseEvent := []

namespace MouseDriver

/-- `handle_irq`, when the status says that there is a byte `b` from the mouse. -/
def handleIrq (s : MouseDriver) (b : UInt8) : MouseDriver :=
  match s.buf with
  | [b0, b1] =>
    let p : Packet := ⟨b0, b1, b⟩
    if hasBit b0 0x08 then ⟨[], p.buttons, s.sent ++ p.events s.buttons⟩
    else { s with buf := [] }
  | buf => { s with buf := buf ++ [b] }

def feed (s : MouseDriver) (bs : List UInt8) : MouseDriver := bs.foldl handleIrq s

def feedPackets (s : MouseDriver) (ps : List Packet) : MouseDriver :=
  s.feed (ps.flatMap Packet.bytes)

/-- After `n` packets and another one `p`, each packet `q` is answered with its own events, and the
buttons are those of `q`. -/
def Realigns (s : MouseDriver) : Prop :=
  ∃ n, ∀ (ps : List Packet) (p q : Packet), n ≤ ps.length → (∀ r ∈ q :: (ps ++ [p]), r.WellFormed) →
    let s₁ := s.feedPackets (ps ++ [p])
    let s₂ := s₁.feed q.bytes
    s₂.sent = s₁.sent ++ q.events p.buttons ∧ s₂.buttons = q.buttons

variable {s : MouseDriver} {p : Packet}

theorem feedPackets_append (s : MouseDriver) (ps qs : List Packet) :
    s.feedPackets (ps ++ qs) = (s.feedPackets ps).feedPackets qs := by
  rw [feedPackets, flatMap_append, feed, foldl_append]
  rfl

theorem feedPackets_cons (s : MouseDriver) (p : Packet) (ps : List Packet) :
    s.feedPackets (p :: ps) = (s.feed p.bytes).feedPackets ps := feedPackets_append s [p] ps

/-- The driver counts bytes modulo three. -/
theorem length_feed (h : s.buf.length < 3) (bs : List UInt8) :
    (s.feed bs).buf.length = (s.buf.length + bs.length) % 3 := by
  induction bs generalizing s with
  | nil => exact (Nat.mod_eq_of_lt h).symm
  | cons b bs ih =>
    have hlen : (s.handleIrq b).buf.length = (s.buf.length + 1) % 3 := by
      unfold handleIrq
      split
      · next hbuf => split <;> simp [hbuf]
      · next hbuf =>
        have hne : s.buf.length ≠ 2 := fun h2 => by
          obtain ⟨x, y, hxy⟩ := length_eq_two.mp h2
          exact hbuf x y hxy
        rw [length_append, length_singleton, Nat.mod_eq_of_lt (by omega)]
    refine (ih (by omega)).trans ?_
    rw [hlen, length_cons]
    omega

/-! ### Aligned -/

theorem feed_aligned (h : s.buf = []) (hp : p.WellFormed) : s.feed p.bytes =
    { s with buttons := p.buttons, sent := s.sent ++ p.events s.buttons } := by
  simp [feed, Packet.bytes, handleIrq, h, hp.1]

theorem buf_feedPackets (h : s.buf = []) {ps : List Packet} (hps : ∀ q ∈ ps, q.WellFormed) :
    (s.feedPackets ps).buf = [] := by
  induction ps generalizing s with
  | nil => exact h
  | cons q ps ih =>
    rw [feedPackets_cons, feed_aligned h (hps q (mem_cons_self ..))]
    exact ih h fun r hr => hps r (mem_cons_of_mem _ hr)

theorem realigns_of_aligned (h : s.buf = []) : Realigns s := by
  refine ⟨0, fun ps p q _ hall => ?_⟩
  obtain ⟨hq, hall⟩ := forall_mem_cons.mp hall
  obtain ⟨hps, hp⟩ := forall_mem_append.mp hall
  have hbuttons : (s.feedPackets (ps ++ [p])).buttons = p.buttons := by
    rw [feedPackets_append]
    exact congrArg buttons (feed_aligned (buf_feedPackets h hps) (hp p (mem_singleton_self p)))
  dsimp only
  rw [feed_aligned (buf_feedPackets h hall) hq, hbuttons]
  exact ⟨rfl, rfl⟩

/-! ### Misaligned -/

/-- There are bytes in the buffer, and the first one is not the first of a packet. -/
def Slipped (s : MouseDriver) : Prop :=
  ∃ x rest, s.buf = x :: rest ∧ rest.length < 2 ∧ hasBit x 0x08 = false

/-- A packet leaves a misaligned driver with its own last bytes, and is not reported if the
first byte in the buffer was not the first of a packet. -/
theorem feed_misaligned {x : UInt8} {rest : List UInt8} (h : s.buf = x :: rest)
    (hlt : rest.length < 2) (hp : p.WellFormed) :
    Slipped (s.feed p.bytes) ∧ (hasBit x 0x08 = false → (s.feed p.bytes).sent = s.sent) := by
  rcases rest with _ | ⟨y, _ | ⟨z, rest⟩⟩
  · refine ⟨⟨p.b2, [], ?_, hlt, hp.2.2⟩, fun hx => ?_⟩
    · cases hx : hasBit x 0x08 <;> simp [feed, Packet.bytes, handleIrq, h, hx]
    · simp [feed, Packet.bytes, handleIrq, h, hx]
  · refine ⟨⟨p.b1, [p.b2], ?_, hlt, hp.2.1⟩, fun hx => ?_⟩
    · cases hx : hasBit x 0x08 <;> simp [feed, Packet.bytes, handleIrq, h, hx]
    · simp [feed, Packet.bytes, handleIrq, h, hx]
  · rw [length_cons, length_cons] at hlt
    omega

theorem Slipped.feedPackets (h : Slipped s) {ps : List Packet} (hps : ∀ q ∈ ps, q.WellFormed) :
    Slipped (s.feedPackets ps) ∧ (s.feedPackets ps).sent = s.sent := by
  induction ps generalizing s with
  | nil => exact ⟨h, rfl⟩
  | cons p ps ih =>
    obtain ⟨x, rest, hbuf, hlt, hx⟩ := h
    obtain ⟨hslip, hsent⟩ := feed_misaligned hbuf hlt (hps p (mem_cons_self ..))
    rw [feedPackets_cons, ← hsent hx]
    exact ih hslip fun q hq => hps q (mem_cons_of_mem _ hq)

/-- The mouse moves to the right by one. -/
def moveRight : Packet := ⟨0x08, 0x01, 0x00⟩

theorem not_realigns {x : UInt8} {rest : List UInt8} (h : s.buf = x :: rest)
    (hlt : rest.length < 2) : ¬ Realigns s := by
  rintro ⟨n, hn⟩
  have hmove : moveRight.WellFormed := ⟨by decide, by decide, by decide⟩
  have hall : ∀ k, ∀ q ∈ replicate k moveRight, q.WellFormed := fun k q hq => by
    rw [eq_of_mem_replicate hq]
    exact hmove
  -- the first packet slips the driver, the others leave it as it is
  have hslip : Slipped (s.feedPackets (replicate n moveRight ++ [moveRight])) := by
    rw [← replicate_succ', replicate_succ, feedPackets_cons]
    exact ((feed_misaligned h hlt hmove).1.feedPackets (hall n)).1
  have hsent := (hn (replicate n moveRight) moveRight moveRight (Nat.le_of_eq length_replicate.symm)
    (by simpa [← replicate_succ', ← replicate_succ] using hall (n + 2))).1
  have hquiet := (hslip.feedPackets (hall 1)).2
  exact absurd (self_eq_append_right.mp (hquiet.symm.trans hsent)) (by decide)

/-- **The driver finds the packets again** exactly if the bytes before them were a multiple of
three. -/
theorem realigns_iff (strays : List UInt8) :
    Realigns (({} : MouseDriver).feed strays) ↔ strays.length % 3 = 0 := by
  have hlen : (({} : MouseDriver).feed strays).buf.length = strays.length % 3 := by
    rw [length_feed (by decide), length_nil, Nat.zero_add]
  rcases hbuf : (({} : MouseDriver).feed strays).buf with _ | ⟨x, rest⟩
  · exact iff_of_true (realigns_of_aligned hbuf) (by rw [← hlen, hbuf, length_nil])
  · rw [hbuf, length_cons] at hlen
    exact iff_of_false (not_realigns hbuf (by omega)) (by omega)

/-- After one byte that belongs to no packet no packet is found. -/
theorem stray_byte_never_realigned : ¬ Realigns (({} : MouseDriver).feed [0x00]) :=
  not_realigns rfl (by decide)

end MouseDriver

end PythonOS.Drivers

import PythonOS.Lib.OnesComplement
import PythonOS.Net.Tcp

/-!
# PythonOS.Net.Codec

The wire formats: Ethernet frames (`ethernet.py`), IPv4 packets and the Internet
checksum (`ip.py`), and TCP segments (`TCPSegment.encode` of `tcp.py`; `decode`
is in `PythonOS.Net.Tcp`).

`segment_round_trip`: a segment that is encoded through the three layers, padded
and decoded again comes back unchanged, and both checksums verify.
-/

namespace PythonOS.Net

open Lib Lib.Bytes Lib.OnesComplement List

/-- The exceptions of the codecs. -/
inductive NetError
  | valueError (msg : String)
  | structError
  deriving Repr, DecidableEq

/-- `struct.pack` of one big-endian field of `w` bytes. -/
def pack (w v : Nat) : Except NetError Bytes :=
  if v < 256 ^ w then .ok (beBytes w v) else .error .structError

/-- `struct.pack` of an `ns` field: cut or filled up to `n` bytes. -/
def packFixed (n : Nat) (b : Bytes) : Bytes := b.take n ++ zeros (n - b.length)

/-- `inet_cksum`. -/
def inetCksum (data : Bytes) : Nat := 0xFFFF - (foldCarry (wordSum data) &&& 0xFFFF)

/-! ### Ethernet -/

/-- `EtherFrame`. -/
structure EtherFrame where
  dst : Bytes
  src : Bytes
  ethertype : Nat
  payload : Bytes
  deriving Repr, DecidableEq

def ethertypeIPv4 : Nat := 0x0800
def ethertypeArp : Nat := 0x0806

namespace EtherFrame

/-- `EtherFrame.decode`. -/
def decode (raw : Bytes) : Except NetError EtherFrame :=
  if raw.length < 14 then .error (.valueError "Frame too short")
  else
    .ok
      { dst := slice raw 0 6
        src := slice raw 6 12
        ethertype := beNat (slice raw 12 14)
        payload := raw.drop 14 }

/-- `EtherFrame.encode`. -/
def encode (f : EtherFrame) : Except NetError Bytes := do
  return f.dst ++ f.src ++ (← pack 2 f.ethertype) ++ f.payload

end EtherFrame

/-! ### IPv4 -/

namespace IPv4Packet

/-- `IPv4Packet.decode`: the payload runs from the header length to the total length. -/
def decode (raw : Bytes) : Except NetError IPv4Packet :=
  if raw.length < 20 then .error (.valueError "IP packet too short")
  else
    let ihl := ((raw.getD 0 0).toNat &&& 0x0F) * 4
    let totalLen := beNat (slice raw 2 4)
    .ok
      { src := slice raw 12 16
        dst := slice raw 16 20
        proto := (raw.getD 9 0).toNat
        ttl := (raw.getD 8 0).toNat
        payload := slice raw ihl totalLen
        tos := (raw.getD 1 0).toNat
        flags := beNat (slice raw 6 8) }

/-- `IPv4Packet.encode`. `ipId` is the module's packet counter; it counts the call also when
packing fails. -/
def encode (ipId : Nat) (p : IPv4Packet) : Nat × Except NetError Bytes :=
  let ipId := (ipId + 1) &&& 0xFFFF
  (ipId, do
    let header := (← pack 1 0x45) ++ (← pack 1 p.tos) ++ (← pack 2 (20 + p.payload.length)) ++
      (← pack 2 ipId) ++ (← pack 2 p.flags) ++ (← pack 1 p.ttl) ++ (← pack 1 p.proto) ++
      (← pack 2 0) ++ packFixed 4 p.src ++ packFixed 4 p.dst
    let cksum := inetCksum header
    return header.take 10 ++ (← pack 2 cksum) ++ header.drop 12 ++ p.payload)

end IPv4Packet

/-! ### TCP -/

/-- `TCPSegment.encode`. The struct format has one field more than the header; the slice
`[:20]` drops it. -/
def TCPSegment.encode (seg : TCPSegment) (srcIp dstIp : Bytes) : Except NetError Bytes := do
  let pseudo := srcIp ++ dstIp ++ (← pack 1 0) ++ (← pack 1 protoTcp) ++
    (← pack 4 (20 + seg.payload.length))
  let header := ((← pack 2 seg.srcPort) ++ (← pack 2 seg.dstPort) ++ (← pack 4 seg.seq) ++
    (← pack 4 seg.ack) ++ (← pack 2 (5 <<< 12 ||| seg.flags)) ++ (← pack 2 seg.window) ++
    (← pack 2 0) ++ (← pack 2 0) ++ (← pack 2 0)).take 20
  let cksum := inetCksum (pseudo ++ header ++ seg.payload)
  return header.take 16 ++ (← pack 2 cksum) ++ header.drop 18 ++ seg.payload

/-- The pseudo-header a receiver puts in front of a segment of `len` bytes (RFC 793): the
addresses, a zero byte, the protocol and the length in 16 bits. -/
def pseudoHeader (srcIp dstIp : Bytes) (len : Nat) : Bytes :=
  srcIp ++ dstIp ++ [0, 6] ++ beBytes 2 len

/-- The fields of a segment fit the fields of the header; nine bits are flags. -/
structure TCPSegment.Fits (seg : TCPSegment) : Prop where
  srcPort : seg.srcPort < 256 ^ 2
  dstPort : seg.dstPort < 256 ^ 2
  seq : seg.seq < 256 ^ 4
  ack : seg.ack < 256 ^ 4
  flags : seg.flags < 2 ^ 9
  window : seg.window < 256 ^ 2

/-- The addresses and fields of a packet fit the fields of the header. -/
structure IPv4Packet.Fits (p : IPv4Packet) : Prop where
  src : p.src.length = 4
  dst : p.dst.length = 4
  proto : p.proto < 256 ^ 1
  ttl : p.ttl < 256 ^ 1
  tos : p.tos < 256 ^ 1
  flags : p.flags < 256 ^ 2
  payload : 20 + p.payload.length < 256 ^ 2

/-! ### Fields and checksums -/

theorem pack_ok {w v : Nat} (h : v < 256 ^ w) : pack w v = .ok (beBytes w v) := if_pos h

theorem packFixed_of_length {n : Nat} {b : Bytes} (h : b.length = n) : packFixed n b = b := by
  rw [packFixed, h, Nat.sub_self, ← h, take_length]
  exact append_nil b

theorem inetCksum_eq (data : Bytes) : inetCksum data = 0xFFFF - foldCarry (wordSum data) := by
  have hlt := (foldCarry_spec (wordSum data)).1
  rw [inetCksum, show 0xFFFF = 2 ^ 16 - 1 from rfl, Nat.and_two_pow_sub_one_eq_mod,
    Nat.mod_eq_of_lt hlt]

theorem inetCksum_lt (data : Bytes) : inetCksum data < 256 ^ 2 := by
  rw [inetCksum_eq]
  omega

/-- **A checksum verifies.** Filled into a zero field that starts at an even offset, the
checksum makes the checksum of the whole zero. -/
theorem inetCksum_filled {a : Bytes} (b : Bytes) (ha : a.length % 2 = 0) :
    inetCksum (a ++ (beBytes 2 (inetCksum (a ++ (beBytes 2 0 ++ b))) ++ b)) = 0 := by
  have htwo : ∀ v, (beBytes 2 v).length % 2 = 0 := fun v => by rw [length_beBytes]
  have hsum : ∀ v, v < 2 ^ 16 →
      wordSum (a ++ (beBytes 2 v ++ b)) = wordSum a + (v + wordSum b) := by
    intro v hv
    rw [wordSum_append _ ha, wordSum_append _ (htwo v), wordSum_beBytes_two hv]
  have hc := inetCksum_lt (a ++ (beBytes 2 0 ++ b))
  rw [inetCksum_eq, hsum _ hc, inetCksum_eq, hsum 0 (by decide), Nat.zero_add,
    show ∀ x y c : Nat, x + (c + y) = x + y + c by omega, foldCarry_complement, Nat.sub_self]

/-! ### One layer at a time -/

/-- The TCP header in front of its checksum. -/
def TCPSegment.fields (seg : TCPSegment) : Bytes :=
  beBytes 2 seg.srcPort ++ beBytes 2 seg.dstPort ++ beBytes 4 seg.seq ++
    beBytes 4 seg.ack ++ beBytes 2 (5 <<< 12 ||| seg.flags) ++
    beBytes 2 seg.window

/-- The TCP header with checksum `c`. -/
def TCPSegment.header (seg : TCPSegment) (c : Nat) : Bytes :=
  seg.fields ++ beBytes 2 c ++ beBytes 2 0

/-- The pseudo-header `encode` sums: its length field has 32 bits. -/
def TCPSegment.pseudo (seg : TCPSegment) (srcIp dstIp : Bytes) : Bytes :=
  srcIp ++ dstIp ++ [0, 6] ++ beBytes 4 (20 + seg.payload.length)

/-- The checksum of the segment. -/
def TCPSegment.cksum (seg : TCPSegment) (srcIp dstIp : Bytes) : Nat :=
  inetCksum (seg.pseudo srcIp dstIp ++ seg.header 0 ++ seg.payload)

/-- The IPv4 header in front of its checksum. -/
def IPv4Packet.fields (p : IPv4Packet) (ident : Nat) : Bytes :=
  beBytes 1 0x45 ++ beBytes 1 p.tos ++ beBytes 2 (20 + p.payload.length) ++
    beBytes 2 ident ++ beBytes 2 p.flags ++ beBytes 1 p.ttl ++
    beBytes 1 p.proto

/-- The IPv4 header with identification `ident` and checksum `c`. -/
def IPv4Packet.header (p : IPv4Packet) (ident c : Nat) : Bytes :=
  p.fields ident ++ beBytes 2 c ++ p.src ++ p.dst

theorem shiftLeft_or_flags {flags : Nat} (h : flags < 2 ^ 9) : 5 <<< 12 ||| flags = 20480 + flags :=
  (Nat.shiftLeft_add_eq_or_of_lt (Nat.lt_trans h (by decide)) 5).symm

theorem TCPSegment.length_fields (seg : TCPSegment) : seg.fields.length = 16 := rfl

theorem IPv4Packet.length_fields (p : IPv4Packet) (ident : Nat) : (p.fields ident).length = 10 :=
  rfl

variable {seg : TCPSegment}

theorem TCPSegment.encode_eq (h : seg.Fits)
    (hlen : 20 + seg.payload.length < 256 ^ 4) (srcIp dstIp : Bytes) :
    seg.encode srcIp dstIp = .ok (seg.header (seg.cksum srcIp dstIp) ++ seg.payload) := by
  have hflags : 5 <<< 12 ||| seg.flags < 256 ^ 2 := by
    have hlt := h.flags
    rw [shiftLeft_or_flags h.flags]
    omega
  have hcut : (seg.fields ++ beBytes 2 0 ++ beBytes 2 0 ++ beBytes 2 0).take 20 =
      seg.header 0 := take_left' rfl
  have hpseudo : srcIp ++ dstIp ++ beBytes 1 0 ++ beBytes 1 protoTcp =
      srcIp ++ dstIp ++ [0, 6] := by
    rw [append_assoc]
    rfl
  unfold TCPSegment.encode
  rw [pack_ok (w := 1) (v := 0) (by decide), pack_ok (w := 1) (v := protoTcp) (by decide),
    pack_ok hlen, pack_ok h.srcPort, pack_ok h.dstPort, pack_ok h.seq, pack_ok h.ack,
    pack_ok hflags, pack_ok h.window, pack_ok (w := 2) (v := 0) (by decide)]
  simp only [bind, Except.bind, hpseudo]
  rw [← TCPSegment.fields, hcut, pack_ok (inetCksum_lt _)]
  rfl

/-- The header is read back field by field, whatever the checksum field holds. -/
theorem TCPSegment.decode_header (h : seg.Fits) (c : Nat) :
    TCPSegment.decode (seg.header c ++ seg.payload) = some seg := by
  have hlen : ¬ (seg.header c ++ seg.payload).length < 20 := by
    rw [length_append, show (seg.header c).length = 20 from rfl]
    omega
  have hoff : beNat (slice (seg.header c ++ seg.payload) 12 14) =
      20480 + seg.flags := by
    have hlt := h.flags
    show beNat (beBytes 2 (5 <<< 12 ||| seg.flags)) = _
    rw [shiftLeft_or_flags h.flags, beNat_beBytes_of_lt (by omega)]
  have hflags : (20480 + seg.flags) &&& 0x1FF = seg.flags := by
    have hlt := h.flags
    rw [show 0x1FF = 2 ^ 9 - 1 from rfl, Nat.and_two_pow_sub_one_eq_mod]
    omega
  have hdata : (20480 + seg.flags) >>> 12 * 4 = 20 := by
    have hlt := h.flags
    omega
  simp only [TCPSegment.decode, hlen, if_false, hoff, hflags, hdata, Option.some.injEq]
  -- every slice below is one field of the header
  show TCPSegment.mk (beNat (beBytes 2 seg.srcPort))
    (beNat (beBytes 2 seg.dstPort)) (beNat (beBytes 4 seg.seq))
    (beNat (beBytes 4 seg.ack)) seg.flags
    (beNat (beBytes 2 seg.window)) seg.payload = seg
  rw [beNat_beBytes_of_lt h.srcPort, beNat_beBytes_of_lt h.dstPort,
    beNat_beBytes_of_lt h.seq, beNat_beBytes_of_lt h.ack,
    beNat_beBytes_of_lt h.window]

theorem IPv4Packet.length_header {p : IPv4Packet} (h : p.Fits) (ident c : Nat) :
    (p.header ident c).length = 20 := by
  simp only [IPv4Packet.header, length_append, p.length_fields, length_beBytes, h.src, h.dst]

theorem IPv4Packet.encode_eq {p : IPv4Packet} (h : p.Fits) (ipId : Nat) :
    p.encode ipId = ((ipId + 1) &&& 0xFFFF, .ok (p.header ((ipId + 1) &&& 0xFFFF)
      (inetCksum (p.header ((ipId + 1) &&& 0xFFFF) 0)) ++ p.payload)) := by
  have hid : (ipId + 1) &&& 0xFFFF < 256 ^ 2 :=
    Nat.lt_of_le_of_lt Nat.and_le_right (by decide)
  unfold IPv4Packet.encode
  simp only [pack_ok (w := 1) (v := 0x45) (by decide), pack_ok h.tos, pack_ok h.payload,
    pack_ok hid, pack_ok h.flags, pack_ok h.ttl, pack_ok h.proto,
    pack_ok (w := 2) (v := 0) (by decide), packFixed_of_length h.src, packFixed_of_length h.dst,
    bind, Except.bind]
  rw [pack_ok (inetCksum_lt _)]
  rfl

/-- What follows the total length is cut off. -/
theorem IPv4Packet.decode_header {p : IPv4Packet} (h : p.Fits) (ident c : Nat) (pad : Bytes) :
    IPv4Packet.decode (p.header ident c ++ p.payload ++ pad) = .ok p := by
  have hhead := p.length_header h ident c
  set raw := p.header ident c ++ p.payload ++ pad with hraw
  have hlen : ¬ raw.length < 20 := by
    rw [hraw, length_append, length_append, hhead]
    omega
  have htotal : beNat (slice raw 2 4) = 20 + p.payload.length :=
    @beNat_beBytes_of_lt 2 (20 + p.payload.length) h.payload
  have hpayload : slice raw 20 (20 + p.payload.length) = p.payload := by
    rw [hraw, append_assoc]
    exact slice_append_mid pad hhead rfl
  have hsrc : slice raw 12 16 = p.src := by
    rw [hraw, append_assoc, IPv4Packet.header, append_assoc, append_assoc]
    exact slice_append_mid _ rfl (by rw [h.src])
  have hdst : slice raw 16 20 = p.dst := by
    rw [hraw, append_assoc, IPv4Packet.header, append_assoc]
    refine slice_append_mid _ ?_ (by rw [h.dst])
    rw [length_append, h.src]
    rfl
  have hflags : beNat (slice raw 6 8) = p.flags :=
    @beNat_beBytes_of_lt 2 p.flags h.flags
  have hbyte : ∀ v, v < 256 ^ 1 → (UInt8.ofNat v).toNat = v := fun v hv =>
    UInt8.toNat_ofNat_of_lt' hv
  have hihl : ((getD raw 0 0).toNat &&& 0x0F) * 4 = 20 := by
    have hfirst : getD raw 0 0 = UInt8.ofNat 0x45 := rfl
    rw [hfirst]
    decide
  have htos : (getD raw 1 0).toNat = p.tos :=
    hbyte _ h.tos
  have httl : (getD raw 8 0).toNat = p.ttl :=
    hbyte _ h.ttl
  have hproto : (getD raw 9 0).toNat = p.proto :=
    hbyte _ h.proto
  simp only [IPv4Packet.decode, hlen, if_false, htotal, hsrc, hdst, hflags, hihl, htos, httl,
    hproto, hpayload]

theorem EtherFrame.encode_eq {f : EtherFrame} (h : f.ethertype < 256 ^ 2) :
    f.encode = .ok (f.dst ++ f.src ++ beBytes 2 f.ethertype ++ f.payload) := by
  unfold EtherFrame.encode
  rw [pack_ok h]
  rfl

/-- Padding behind the frame goes to the end of the payload. -/
theorem EtherFrame.decode_encoded {f : EtherFrame} (hdst : f.dst.length = 6)
    (hsrc : f.src.length = 6) (htype : f.ethertype < 256 ^ 2) (pad : Bytes) :
    EtherFrame.decode (f.dst ++ f.src ++ beBytes 2 f.ethertype ++ f.payload ++ pad) =
      .ok { f with payload := f.payload ++ pad } := by
  have hhead : (f.dst ++ f.src ++ beBytes 2 f.ethertype).length = 14 := by
    rw [length_append, length_append, hdst, hsrc, length_beBytes]
  set raw := f.dst ++ f.src ++ beBytes 2 f.ethertype ++ f.payload ++ pad with hraw
  have hassoc : raw = f.dst ++ (f.src ++ (beBytes 2 f.ethertype ++ (f.payload ++ pad))) := by
    simp only [hraw, append_assoc]
  have hlen : ¬ raw.length < 14 := by
    rw [hraw, length_append, length_append, hhead]
    omega
  have h1 : slice raw 0 6 = f.dst := by
    rw [hassoc]
    exact @slice_append_mid [] f.dst _ 0 6 rfl (by rw [hdst])
  have h2 : slice raw 6 12 = f.src := by
    rw [hassoc]
    exact slice_append_mid _ hdst (by rw [hsrc])
  have h3 : slice raw 12 14 = beBytes 2 f.ethertype := by
    rw [hassoc, ← append_assoc]
    exact slice_append_mid _ (by rw [length_append, hdst, hsrc]) rfl
  have h4 : raw.drop 14 = f.payload ++ pad := by
    rw [hraw, append_assoc _ f.payload pad]
    exact drop_left' hhead
  simp only [EtherFrame.decode, hlen, if_false, h1, h2, h3, h4, beNat_beBytes_of_lt htype]

/-! ### The three layers -/

/-- The packet a segment's bytes are sent in. -/
def tcpPacket (srcIp dstIp : Bytes) (ttl tos flags : Nat) (tcp : Bytes) : IPv4Packet :=
  { src := srcIp, dst := dstIp, proto := protoTcp, ttl, payload := tcp, tos, flags }

/-- The 32-bit length in the pseudo-header of `encode` sums up as the 16-bit one. -/
theorem wordSum_length {n : Nat} (h : n < 256 ^ 2) :
    wordSum (beBytes 4 n) = wordSum (beBytes 2 n) := by
  have hhigh : wordSum (beBytes 2 (n / 256 ^ 2)) = 0 := by
    rw [Nat.div_eq_of_lt h]
    exact wordSum_beBytes_two (by decide)
  have hsplit : beBytes 4 n = beBytes 2 (n / 256 ^ 2) ++ beBytes 2 n := by
    simp only [beBytes, Nat.div_div_eq_div_mul]
    rfl
  rw [hsplit, wordSum_append _ (by rw [length_beBytes]), hhigh, Nat.zero_add]

section

variable {srcIp dstIp : Bytes} (hsrc : srcIp.length = 4) (hdst : dstIp.length = 4)
  (hlen : 20 + seg.payload.length < 256 ^ 2)

include hsrc hdst hlen

/-- Both pseudo-headers have the same sum. -/
theorem wordSum_pseudo :
    wordSum (pseudoHeader srcIp dstIp (20 + seg.payload.length)) =
      wordSum (seg.pseudo srcIp dstIp) := by
  have heven : (srcIp ++ dstIp ++ [0, 6]).length % 2 = 0 := by
    simp only [length_append, length_cons, length_nil, hsrc, hdst]
  rw [pseudoHeader, TCPSegment.pseudo, wordSum_append _ heven, wordSum_append _ heven,
    wordSum_length hlen]

/-- The checksum `encode` fills in verifies against the receiver's pseudo-header. -/
theorem inetCksum_segment :
    inetCksum (pseudoHeader srcIp dstIp (20 + seg.payload.length) ++
      (seg.header (seg.cksum srcIp dstIp) ++ seg.payload)) = 0 := by
  have hrfc : (pseudoHeader srcIp dstIp (20 + seg.payload.length)).length % 2 = 0 := by
    simp only [pseudoHeader, length_append, length_beBytes, hsrc, hdst, length_cons, length_nil]
  have hpseudo : (seg.pseudo srcIp dstIp).length % 2 = 0 := by
    simp only [TCPSegment.pseudo, length_append, length_beBytes, hsrc, hdst,
      length_cons, length_nil]
  have hfront : (seg.pseudo srcIp dstIp ++ seg.fields).length % 2 = 0 := by
    rw [length_append, seg.length_fields]
    omega
  have hsplit : ∀ c, seg.pseudo srcIp dstIp ++ seg.header c ++ seg.payload =
      seg.pseudo srcIp dstIp ++ seg.fields ++
        (beBytes 2 c ++ (beBytes 2 0 ++ seg.payload)) := by
    intro c
    simp only [TCPSegment.header, append_assoc]
  rw [inetCksum, wordSum_append _ hrfc, wordSum_pseudo hsrc hdst hlen, ← wordSum_append _ hpseudo,
    ← inetCksum, ← append_assoc, hsplit, TCPSegment.cksum, hsplit]
  exact inetCksum_filled _ hfront

end

/-- The checksum of the IPv4 header verifies. -/
theorem IPv4Packet.inetCksum_header (p : IPv4Packet) (ident : Nat) :
    inetCksum (p.header ident (inetCksum (p.header ident 0))) = 0 := by
  have hheader : ∀ c, p.header ident c =
      p.fields ident ++ (beBytes 2 c ++ (p.src ++ p.dst)) := by
    intro c
    rw [IPv4Packet.header, append_assoc, append_assoc]
  rw [hheader 0, hheader]
  exact inetCksum_filled _ (by rw [p.length_fields])

/-- **Round trip.** A segment, with addresses and a payload that fit, encoded as a TCP segment
in an IPv4 packet in an Ethernet frame and followed by any padding, is decoded to the same
frame addresses, packet and segment; the checksums of the IPv4 header and of the segment behind
its pseudo-header are zero. -/
theorem segment_round_trip (seg : TCPSegment) (srcIp dstIp srcMac dstMac pad : Bytes)
    (ipId ttl tos ipFlags : Nat) (hseg : seg.Fits) (hlen : 40 + seg.payload.length < 256 ^ 2)
    (hsrcIp : srcIp.length = 4) (hdstIp : dstIp.length = 4) (hsrcMac : srcMac.length = 6)
    (hdstMac : dstMac.length = 6) (httl : ttl < 256 ^ 1) (htos : tos < 256 ^ 1)
    (hflags : ipFlags < 256 ^ 2) :
    ∃ tcp ip frame, seg.encode srcIp dstIp = .ok tcp ∧
      ((tcpPacket srcIp dstIp ttl tos ipFlags tcp).encode ipId).2 = .ok ip ∧
      EtherFrame.encode ⟨dstMac, srcMac, ethertypeIPv4, ip⟩ = .ok frame ∧
      EtherFrame.decode (frame ++ pad) = .ok ⟨dstMac, srcMac, ethertypeIPv4, ip ++ pad⟩ ∧
      IPv4Packet.decode (ip ++ pad) = .ok (tcpPacket srcIp dstIp ttl tos ipFlags tcp) ∧
      TCPSegment.decode tcp = some seg ∧
      inetCksum (ip.take 20) = 0 ∧
      inetCksum (pseudoHeader srcIp dstIp tcp.length ++ tcp) = 0 := by
  set tcp := seg.header (seg.cksum srcIp dstIp) ++ seg.payload with htcp
  set p := tcpPacket srcIp dstIp ttl tos ipFlags tcp with hp
  set ident := (ipId + 1) &&& 0xFFFF with hident
  have htcplen : tcp.length = 20 + seg.payload.length := by
    rw [htcp, length_append]
    rfl
  have hfits : p.Fits :=
    ⟨hsrcIp, hdstIp, show 6 < 256 ^ 1 by decide, httl, htos, hflags, by
      show 20 + tcp.length < _; omega⟩
  set ip := p.header ident (inetCksum (p.header ident 0)) ++ tcp with hip
  have htype : ethertypeIPv4 < 256 ^ 2 := by decide
  refine ⟨tcp, ip, dstMac ++ srcMac ++ beBytes 2 ethertypeIPv4 ++ ip,
    TCPSegment.encode_eq hseg (by omega) srcIp dstIp, ?_, EtherFrame.encode_eq htype, ?_, ?_, ?_,
    ?_, ?_⟩
  · rw [IPv4Packet.encode_eq hfits]
    rfl
  · exact EtherFrame.decode_encoded (f := ⟨dstMac, srcMac, ethertypeIPv4, ip⟩) hdstMac hsrcMac
      htype pad
  · exact IPv4Packet.decode_header hfits ident _ pad
  · exact TCPSegment.decode_header hseg _
  · have htake : ip.take 20 = p.header ident (inetCksum (p.header ident 0)) :=
      take_left' (p.length_header hfits ident _)
    rw [htake]
    exact IPv4Packet.inetCksum_header p ident
  · rw [htcplen]
    exact inetCksum_segment hsrcIp hdstIp (by omega)

/-- Three bytes for port 80, in a frame padded to Ethernet's minimum. -/
theorem segment_round_trip_three :
    ∃ tcp ip frame,
      TCPSegment.encode ⟨5000, 80, 4294967295, 7, 0x18, 65535, [1, 2, 3]⟩ [10, 0, 0, 1]
        [10, 0, 0, 2] = .ok tcp ∧
      EtherFrame.encode ⟨[1, 2, 3, 4, 5, 6], [6, 5, 4, 3, 2, 1], ethertypeIPv4, ip⟩ = .ok frame ∧
      EtherFrame.decode (frame ++ [0, 0, 0]) =
        .ok ⟨[1, 2, 3, 4, 5, 6], [6, 5, 4, 3, 2, 1], ethertypeIPv4, ip ++ [0, 0, 0]⟩ ∧
      TCPSegment.decode tcp = some ⟨5000, 80, 4294967295, 7, 0x18, 65535, [1, 2, 3]⟩ := by
  obtain ⟨tcp, ip, frame, htcp, -, hframe, hdec, -, hseg, -, -⟩ :=
    segment_round_trip ⟨5000, 80, 4294967295, 7, 0x18, 65535, [1, 2, 3]⟩ [10, 0, 0, 1]
      [10, 0, 0, 2] [6, 5, 4, 3, 2, 1] [1, 2, 3, 4, 5, 6] [0, 0, 0] 65535 64 0 0x4000
      ⟨by decide, by decide, by decide, by decide, by decide, by decide⟩ (by decide) rfl rfl rfl
      rfl (by decide) (by decide) (by decide)
  exact ⟨tcp, ip, frame, htcp, hframe, hdec, hseg⟩

end PythonOS.Net

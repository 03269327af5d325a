import ComputeKernel.Support.Finishes
import ComputeKernel.Net.Lengths
import ComputeKernel.Net.Wire

/-! A datagram on its way through the layers: into the payload of an IPv4 packet, into an
Ethernet frame, and back through the three parsers. The kernel builds no IPv4 headers, so
the header is any one that a sender may have put there. -/
namespace ComputeKernel
open Checked (Exec Finishes)

/-- An IPv4 header, with a whole number of words of options. -/
structure Ipv4Header where
  typeOfService : UInt8
  totalLength : UInt16
  identification : UInt16
  fragment : UInt16
  ttl : UInt8
  protocol : UInt8
  checksum : UInt16
  src : Octets 4
  dst : Octets 4
  optionWords : Fin 11
  options : Octets (4 * optionWords.val)

namespace Ipv4Header

/-- The version and the number of words of the header. -/
def versionIhl (header : Ipv4Header) : UInt8 := 0x40 ||| UInt8.ofNat (5 + header.optionWords.val)

def bytes (header : Ipv4Header) : List UInt8 :=
  [header.versionIhl, header.typeOfService] ++ toBe16 header.totalLength ++
    toBe16 header.identification ++ toBe16 header.fragment ++ [header.ttl, header.protocol] ++
    toBe16 header.checksum ++ header.src.val ++ header.dst.val ++ header.options.val

theorem bytes_length (header : Ipv4Header) : header.bytes.length = 20 + 4 * header.optionWords.val := by
  have src := header.src.property
  have dst := header.dst.property
  have options := header.options.property
  simp only [bytes, toBe16, List.length_append, List.length_cons, List.length_nil]
  omega

theorem versionIhl_spec (header : Ipv4Header) :
    header.versionIhl >>> 4 = 4 ∧
      (header.versionIhl &&& 0x0f).toNat * 4 = 20 + 4 * header.optionWords.val := by
  have every : ∀ words < 11, (0x40 ||| UInt8.ofNat (5 + words)) >>> 4 = 4 ∧
      ((0x40 ||| UInt8.ofNat (5 + words)) &&& 0x0f).toNat * 4 = 20 + 4 * words := by decide
  exact every header.optionWords.val header.optionWords.isLt

/-- What the parser makes of a header and the bytes behind it. -/
def packet (header : Ipv4Header) (payload : List UInt8) : IpPacket :=
  { src := header.src, dst := header.dst, protocol := header.protocol, ttl := header.ttl, payload }

/-- The addresses, behind the twelve bytes before them. -/
theorem addresses (header : Ipv4Header) (rest : List UInt8) :
    ((header.bytes ++ rest).take 16).drop 12 = header.src.val ∧
      ((header.bytes ++ rest).take 20).drop 16 = header.dst.val := by
  have behind : (header.bytes ++ rest).drop 12 =
      header.src.val ++ (header.dst.val ++ (header.options.val ++ rest)) := by
    rw [bytes, List.append_assoc, List.append_assoc, List.append_assoc]
    rfl
  have later : (header.bytes ++ rest).drop 16 =
      header.dst.val ++ (header.options.val ++ rest) := by
    rw [show 16 = 12 + 4 from rfl, ← List.drop_drop, behind, List.drop_left' header.src.property]
  rw [List.drop_take, List.drop_take, behind, later]
  exact ⟨List.take_left' header.src.property, List.take_left' header.dst.property⟩

/-- The options are part of the header, and everything behind them is payload. -/
theorem parse_bytes (header : Ipv4Header) (rest : List UInt8) (s : σ) :
    IpPacket.parse (header.bytes ++ rest) s = .done (some (header.packet rest)) s := by
  obtain ⟨four, length⟩ := header.versionIhl_spec
  obtain ⟨src, dst⟩ := header.addresses rest
  obtain ⟨ihl, scaled, value⟩ := u8Mul_four (IpPacket.ihl_lt header.versionIhl) s
  have size := header.bytes_length
  have long : 20 ≤ (header.bytes ++ rest).length := by rw [List.length_append]; omega
  have first : Exec.index (header.bytes ++ rest) 0 s = .done header.versionIhl s := rfl
  have ttl : Exec.index (header.bytes ++ rest) 8 s = .done header.ttl s := rfl
  have protocol : Exec.index (header.bytes ++ rest) 9 s = .done header.protocol s := rfl
  have cut : ihl.toNat = header.bytes.length := by omega
  unfold IpPacket.parse
  rw [if_neg (by omega), Exec.bind_of_done first, if_neg (fun other => other four),
    Exec.bind_of_done scaled, Exec.bind_of_done ttl, Exec.bind_of_done protocol,
    Exec.bind_of_done (Exec.slice_of_le (by omega) (by omega) s), src, Octets.tryInto_val]
  dsimp only
  rw [Exec.bind_of_done (Exec.slice_of_le (by omega) (by omega) s), dst, Octets.tryInto_val]
  dsimp only
  rw [cut, Exec.bind_of_done (Exec.sliceFrom_of_le (by rw [List.length_append]; omega) s),
    List.drop_left, Exec.ret_run]
  rfl

end Ipv4Header

/-- A datagram that comes in with its frame and its packet. -/
def receiveUdp (data : List UInt8) : Exec σ (Option (EthernetFrame × IpPacket × UdpDatagram)) := do
  let frame ← EthernetFrame.parse data
  match frame with
  | none => Exec.ret none
  | some frame => do
      let packet ← IpPacket.parse frame.payload
      match packet with
      | none => Exec.ret none
      | some packet => do
          let datagram ← UdpDatagram.parse packet.payload
          Exec.ret (datagram.map (fun datagram => (frame, packet, datagram)))

/-- Bytes behind a datagram are not taken for its payload. -/
theorem UdpDatagram.parse_padded {d : UdpDatagram} (short : d.payload.length ≤ 65527)
    (padding : List UInt8) (s : σ) :
    parse (d.layout (UInt16.ofNat (8 + d.payload.length)) ++ padding) s = .done (some d) s := by
  have field : (UInt16.ofNat (8 + d.payload.length)).toNat = 8 + d.payload.length := by
    rw [UInt16.toNat_ofNat', Nat.mod_eq_of_lt (by omega)]
  change parse (_ :: _ :: _ :: _ :: _ :: _ :: _ :: _ :: (d.payload ++ padding)) s = _
  rw [parse_header, fromBe16_toBe16, fromBe16_toBe16, fromBe16_toBe16, field, List.length_append,
    if_neg (by omega), Nat.add_sub_cancel_left, List.take_left]

/-- A datagram survives its way through all three layers, whatever options the packet has
and whatever padding the link adds: its own length field cuts the padding off, which the
network layer hands up. -/
theorem datagram_survives_transit {d : UdpDatagram} (short : d.payload.length ≤ 65527)
    (header : Ipv4Header) (dst src : Octets 6) (ethertype : UInt16) {padding : List UInt8}
    (room : padding.length < 2 ^ 63) (s : σ) :
    Finishes (do
      let body ← d.serialize
      let wire ← EthernetFrame.serialize
        { dst, src, ethertype, payload := header.bytes ++ (body ++ padding) }
      receiveUdp wire)
      (fun received _ => ∃ frame payload, received = some (frame, header.packet payload, d)) s := by
  have encoded := UdpDatagram.serialize_of_lt (d := d) (by omega) s
  refine Finishes.bind (Finishes.of_done encoded ?_)
  have size := header.bytes_length
  have words := header.optionWords.isLt
  have framed := EthernetFrame.serialize_of_lt (f :=
    { dst, src, ethertype,
      payload := header.bytes ++ (d.layout (UInt16.ofNat (8 + d.payload.length)) ++ padding) })
    (by
      simp only [UdpDatagram.layout, toBe16, List.length_append, List.length_cons, List.length_nil]
      omega) s
  refine Finishes.bind (Finishes.of_done framed ?_)
  unfold receiveUdp
  refine Finishes.bind (Finishes.of_done (EthernetFrame.parse_layout _ _ _ _ _ s) ?_)
  refine Finishes.bind (Finishes.of_done (header.parse_bytes _ s) ?_)
  refine Finishes.bind (Finishes.of_done (UdpDatagram.parse_padded short padding s) ?_)
  exact Finishes.ret ⟨_, _, rfl⟩

/-- A datagram of four bytes behind a header with one word of options, in a padded frame. -/
theorem datagram_survives_transit_ping :
    let d : UdpDatagram := ⟨4000, 53, [0x70, 0x69, 0x6e, 0x67]⟩
    let header : Ipv4Header :=
      { typeOfService := 0, totalLength := 36, identification := 1, fragment := 0, ttl := 64,
        protocol := 17, checksum := 0, src := ⟨[10, 0, 0, 2], rfl⟩, dst := ⟨[10, 0, 0, 1], rfl⟩,
        optionWords := 1, options := ⟨[1, 1, 1, 0], rfl⟩ }
    Finishes (do
      let body ← d.serialize
      let wire ← EthernetFrame.serialize
        { dst := ⟨List.replicate 6 0xff, rfl⟩, src := ⟨List.replicate 6 0, rfl⟩, ethertype := 0x0800,
          payload := header.bytes ++ (body ++ List.replicate 10 0) }
      (receiveUdp wire : Exec Unit _))
      (fun received _ => ∃ frame payload, received = some (frame, header.packet payload, d)) () :=
  datagram_survives_transit (by decide) _ _ _ _ (by decide) ()

end ComputeKernel

import Mathlib.Data.List.GetD
import ComputeKernel.Net.Parsing

/-! The length fields of received packets: which of them panic the stack, and where
the payload that it delivers starts and ends. -/
namespace ComputeKernel
open Checked (Exec)

/-- The parser returns, with a result or without one. -/
def Answers (m : Exec Unit (Option α)) : Prop := ∃ result, m () = .done result ()

/-- Every parser of the stack returns on these bytes and on the payloads in them. -/
def ParsesSafely (data : List UInt8) : Prop :=
  Answers (EthernetFrame.parse data) ∧
    ∀ frame, EthernetFrame.parse data () = .done (some frame) () →
      Answers (IpPacket.parse frame.payload) ∧
        ∀ packet, IpPacket.parse frame.payload () = .done (some packet) () →
          Answers (TcpSegment.parse packet.payload) ∧ Answers (UdpDatagram.parse packet.payload)

/-- The data offset of a segment that is parsed lies inside it. -/
def TcpSegment.Fits (data : List UInt8) : Prop := data.length < 20 ∨ dataOffset data ≤ data.length

/-- So do the header length of a packet and the data offset of the segment behind it. -/
def IpPacket.Fits (data : List UInt8) : Prop :=
  data.length < 20 ∨ version data ≠ 4 ∨
    headerLength data ≤ data.length ∧ TcpSegment.Fits (data.drop (headerLength data))

instance (data : List UInt8) : Decidable (TcpSegment.Fits data) :=
  inferInstanceAs (Decidable (_ ∨ _))

instance (data : List UInt8) : Decidable (IpPacket.Fits data) :=
  inferInstanceAs (Decidable (_ ∨ _ ∨ _ ∧ _))

theorem TcpSegment.answers_iff (data : List UInt8) :
    Answers (TcpSegment.parse data) ↔ TcpSegment.Fits data := by
  by_cases short : data.length < 20
  · exact iff_of_true ⟨none, parse_of_short short ()⟩ (.inl short)
  by_cases inside : dataOffset data ≤ data.length
  · obtain ⟨segment, parsed, _⟩ := parse_of_inside (by omega) inside ()
    exact iff_of_true ⟨some segment, parsed⟩ (.inr inside)
  · refine iff_of_false ?_ (fun fits => fits.elim short inside)
    rintro ⟨result, parsed⟩
    rw [parse_of_beyond (by omega) inside] at parsed
    cases parsed

/-- What a packet of the fourth version with a whole header has to satisfy. -/
theorem IpPacket.fits_iff {data : List UInt8} (long : ¬data.length < 20) (four : version data = 4) :
    IpPacket.Fits data ↔
      headerLength data ≤ data.length ∧ TcpSegment.Fits (data.drop (headerLength data)) := by
  constructor
  · rintro (short | other | both)
    · exact absurd short long
    · exact absurd four other
    · exact both
  · exact fun both => .inr (.inr both)

/-- The parsers from the network layer on. -/
theorem IpPacket.answers_iff (data : List UInt8) :
    (Answers (IpPacket.parse data) ∧
      ∀ packet, IpPacket.parse data () = .done (some packet) () →
        Answers (TcpSegment.parse packet.payload) ∧ Answers (UdpDatagram.parse packet.payload)) ↔
      IpPacket.Fits data := by
  by_cases short : data.length < 20
  · have parsed := parse_of_short short ()
    refine iff_of_true ⟨⟨none, parsed⟩, fun packet some_ => ?_⟩ (.inl short)
    rw [parsed] at some_
    cases some_
  by_cases four : version data = 4
  · rw [fits_iff short four]
    by_cases inside : headerLength data ≤ data.length
    · obtain ⟨packet, parsed, payload⟩ := parse_of_inside (by omega) four inside ()
      rw [← payload, ← TcpSegment.answers_iff]
      constructor
      · rintro ⟨_, next⟩
        exact ⟨inside, (next packet parsed).1⟩
      · rintro ⟨_, segment⟩
        refine ⟨⟨some packet, parsed⟩, fun other same => ?_⟩
        rw [parsed] at same
        cases same
        exact ⟨segment, UdpDatagram.parse_returns _ ()⟩
    · refine iff_of_false ?_ (fun fits => inside fits.1)
      rintro ⟨⟨result, parsed⟩, _⟩
      rw [parse_of_beyond (by omega) four inside] at parsed
      cases parsed
  · have parsed := parse_of_other_version (by omega) four ()
    refine iff_of_true ⟨⟨none, parsed⟩, fun packet some_ => ?_⟩ (.inr (.inl four))
    rw [parsed] at some_
    cases some_

/-- The stack parses received bytes without a panic exactly when the length fields of
the packet in them stay inside it. -/
theorem parses_safely_iff (data : List UInt8) :
    ParsesSafely data ↔ IpPacket.Fits (data.drop 14) := by
  by_cases short : data.length < 14
  · have parsed := EthernetFrame.parse_of_short short ()
    have empty : data.drop 14 = [] := List.drop_eq_nil_of_le (by omega)
    rw [empty]
    refine iff_of_true ⟨⟨none, parsed⟩, fun frame some_ => ?_⟩ (.inl (by decide))
    rw [parsed] at some_
    cases some_
  · obtain ⟨frame, parsed, payload⟩ := EthernetFrame.parse_of_long (Nat.not_lt.mp short) ()
    rw [← payload, ← IpPacket.answers_iff]
    constructor
    · intro safe
      exact safe.2 frame parsed
    · intro answers
      refine ⟨⟨some frame, parsed⟩, fun other same => ?_⟩
      rw [parsed] at same
      cases same
      exact answers

/-- An IPv4 header that announces 60 bytes and ends after 20. -/
theorem long_header_panics :
    ∃ frame, EthernetFrame.parse (List.replicate 14 0 ++ 0x4f :: List.replicate 19 0) () =
        .done (some frame) () ∧
      IpPacket.parse frame.payload () = .panicked .bounds := by
  exact ⟨_, rfl, rfl⟩

/-- The total length field. -/
def IpPacket.totalLength (packet : List UInt8) : Nat :=
  (fromBe16 (packet.getD 2 0) (packet.getD 3 0)).toNat

/-- A packet whose fields say how long it and its header are. -/
structure IpPacket.WellFormed (packet : List UInt8) : Prop where
  version : version packet = 4
  header : 20 ≤ headerLength packet
  inside : headerLength packet ≤ packet.length
  total : totalLength packet = packet.length

structure TcpSegment.WellFormed (segment : List UInt8) : Prop where
  header : 20 ≤ dataOffset segment
  inside : dataOffset segment ≤ segment.length

/-- What the stack hands up from the network layer. -/
def DeliversPayload (data payload : List UInt8) : Prop :=
  ∃ frame packet, EthernetFrame.parse data () = .done (some frame) () ∧
    IpPacket.parse frame.payload () = .done (some packet) () ∧ packet.payload = payload

/-- What it hands up from the transport layer. -/
def DeliversSegment (data payload : List UInt8) : Prop :=
  ∃ frame packet segment, EthernetFrame.parse data () = .done (some frame) () ∧
    IpPacket.parse frame.payload () = .done (some packet) () ∧
    TcpSegment.parse packet.payload () = .done (some segment) () ∧ segment.payload = payload

theorem headerLength_append {packet : List UInt8} (nonempty : 0 < packet.length)
    (padding : List UInt8) :
    IpPacket.headerLength (packet ++ padding) = IpPacket.headerLength packet := by
  unfold IpPacket.headerLength
  rw [List.getD_append _ _ _ _ nonempty]

theorem version_append {packet : List UInt8} (nonempty : 0 < packet.length)
    (padding : List UInt8) : IpPacket.version (packet ++ padding) = IpPacket.version packet := by
  unfold IpPacket.version
  rw [List.getD_append _ _ _ _ nonempty]

theorem dataOffset_append {segment : List UInt8} (long : 12 < segment.length)
    (padding : List UInt8) :
    TcpSegment.dataOffset (segment ++ padding) = TcpSegment.dataOffset segment := by
  unfold TcpSegment.dataOffset
  rw [List.getD_append _ _ _ _ long]

/-- The packet is delivered from its header on, with the padding behind it. -/
theorem delivers_padded {header packet : List UInt8} (ethernet : header.length = 14)
    (wellFormed : IpPacket.WellFormed packet) (padding : List UInt8) :
    ∃ frame ip, EthernetFrame.parse (header ++ packet ++ padding) () = .done (some frame) () ∧
      IpPacket.parse frame.payload () = .done (some ip) () ∧
      ip.payload = packet.drop (IpPacket.headerLength packet) ++ padding := by
  have inside := wellFormed.inside
  have enough := wellFormed.header
  have long : 14 ≤ (header ++ packet ++ padding).length := by
    simp only [List.length_append]
    omega
  obtain ⟨frame, parsed, payload⟩ := EthernetFrame.parse_of_long long ()
  rw [List.append_assoc, ← ethernet, List.drop_left] at payload
  have ipLong : 20 ≤ (packet ++ padding).length := by
    rw [List.length_append]
    omega
  have ipFour := (version_append (by omega) padding).trans wellFormed.version
  have same := headerLength_append (by omega : 0 < packet.length) padding
  have ipInside : IpPacket.headerLength (packet ++ padding) ≤ (packet ++ padding).length := by
    rw [same, List.length_append]
    omega
  obtain ⟨ip, ipParsed, ipPayload⟩ := IpPacket.parse_of_inside ipLong ipFour ipInside ()
  rw [same, List.drop_append_of_le_length inside] at ipPayload
  exact ⟨frame, ip, parsed, by rw [payload]; exact ipParsed, ipPayload⟩

/-- Bytes `4 * IHL .. total_length` of a packet. -/
def IpPacket.body (packet : List UInt8) : List UInt8 :=
  (packet.take (totalLength packet)).drop (headerLength packet)

theorem IpPacket.body_of_wellFormed {packet : List UInt8} (wellFormed : WellFormed packet) :
    body packet = packet.drop (headerLength packet) := by
  unfold body
  rw [wellFormed.total, List.take_length]

theorem deliversPayload_iff {header packet : List UInt8} (ethernet : header.length = 14)
    (wellFormed : IpPacket.WellFormed packet) (padding payload : List UInt8) :
    DeliversPayload (header ++ packet ++ padding) payload ↔
      payload = IpPacket.body packet ++ padding := by
  obtain ⟨frame, ip, parsed, ipParsed, delivered⟩ := delivers_padded ethernet wellFormed padding
  rw [← IpPacket.body_of_wellFormed wellFormed] at delivered
  constructor
  · rintro ⟨frame', ip', parsed', ipParsed', rfl⟩
    rw [parsed] at parsed'
    cases parsed'
    rw [ipParsed] at ipParsed'
    cases ipParsed'
    exact delivered
  · rintro rfl
    exact ⟨frame, ip, parsed, ipParsed, delivered⟩

theorem deliversSegment_iff {data segment : List UInt8} (padding payload : List UInt8)
    (delivered : ∀ ip, DeliversPayload data ip ↔ ip = segment ++ padding)
    (wellFormed : TcpSegment.WellFormed segment) :
    DeliversSegment data payload ↔
      payload = segment.drop (TcpSegment.dataOffset segment) ++ padding := by
  have enough := wellFormed.header
  have inside := wellFormed.inside
  have same := dataOffset_append (by omega : 12 < segment.length) padding
  obtain ⟨frame, ip, parsed, ipParsed, ipPayload⟩ := (delivered _).mpr rfl
  have long : 20 ≤ (segment ++ padding).length := by
    rw [List.length_append]
    omega
  have fits : TcpSegment.dataOffset (segment ++ padding) ≤ (segment ++ padding).length := by
    rw [same, List.length_append]
    omega
  obtain ⟨tcp, tcpParsed, tcpPayload⟩ := TcpSegment.parse_of_inside long fits ()
  rw [same, List.drop_append_of_le_length inside] at tcpPayload
  constructor
  · rintro ⟨frame', ip', tcp', parsed', ipParsed', tcpParsed', rfl⟩
    rw [(delivered ip'.payload).mp ⟨frame', ip', parsed', ipParsed', rfl⟩, tcpParsed] at tcpParsed'
    cases tcpParsed'
    exact tcpPayload
  · rintro rfl
    exact ⟨frame, ip, tcp, parsed, ipParsed, by rw [ipPayload]; exact tcpParsed, tcpPayload⟩

/-- The payload of a packet is delivered, and the sender's data with it, exactly when
no padding follows the packet in its frame. -/
theorem payload_delivered_iff {header packet : List UInt8} (ethernet : header.length = 14)
    (wellFormed : IpPacket.WellFormed packet) (padding : List UInt8) :
    (DeliversPayload (header ++ packet ++ padding) (IpPacket.body packet) ↔ padding = []) ∧
      (TcpSegment.WellFormed (IpPacket.body packet) →
        (DeliversSegment (header ++ packet ++ padding)
          ((IpPacket.body packet).drop (TcpSegment.dataOffset (IpPacket.body packet))) ↔
            padding = [])) := by
  have delivered := deliversPayload_iff ethernet wellFormed padding
  constructor
  · rw [delivered, List.self_eq_append_right]
  · intro segment
    rw [deliversSegment_iff padding _ delivered segment, List.self_eq_append_right]

/-- A segment that carries the byte `A`, in a packet of 41 bytes. -/
def shortPacket : List UInt8 :=
  [0x45, 0, 0, 41, 0, 0, 0, 0, 64, 6, 0, 0, 10, 0, 0, 1, 10, 0, 0, 2] ++
    [0, 80, 0, 81, 0, 0, 0, 0, 0, 0, 0, 0, 0x50, 0x18, 0, 0, 0, 0, 0, 0] ++ [0x41]

theorem shortPacket_wellFormed : IpPacket.WellFormed shortPacket where
  version := by decide
  header := by decide
  inside := by decide
  total := by decide

theorem unpadded_payload_delivered :
    DeliversPayload (List.replicate 14 0 ++ shortPacket ++ []) (IpPacket.body shortPacket) :=
  (payload_delivered_iff (by decide) shortPacket_wellFormed []).1.mpr rfl

/-- Padded to the minimum of an Ethernet frame, the segment arrives with five bytes
that were not sent. -/
theorem padding_delivered :
    IpPacket.WellFormed shortPacket ∧
      DeliversSegment (List.replicate 14 0 ++ shortPacket ++ List.replicate 5 0)
        [0x41, 0, 0, 0, 0, 0] :=
  ⟨shortPacket_wellFormed, _, _, _, rfl, rfl, rfl, rfl⟩

/-- The payload is what follows a header of at least 20 bytes, and so has no byte of the
fixed header. -/
def Behind (data payload : List UInt8) (header : Nat) : Prop :=
  20 ≤ header ∧ payload = data.drop header ∧ payload <:+ data.drop 20

/-- Every packet parsed from these bytes has its payload behind its header. -/
def IpPacket.HeaderWithheld (data : List UInt8) : Prop :=
  ∀ packet, IpPacket.parse data () = .done (some packet) () →
    Behind data packet.payload (headerLength data)

def TcpSegment.HeaderWithheld (data : List UInt8) : Prop :=
  ∀ segment, TcpSegment.parse data () = .done (some segment) () →
    Behind data segment.payload (dataOffset data)

theorem behind_drop_iff (data : List UInt8) (header : Nat) :
    Behind data (data.drop header) header ↔ 20 ≤ header := by
  constructor
  · exact fun behind => behind.1
  · intro enough
    refine ⟨enough, rfl, ?_⟩
    obtain ⟨more, rfl⟩ := Nat.exists_eq_add_of_le enough
    rw [← List.drop_drop]
    exact List.drop_suffix more _

/-- For a parser that cuts its data at an offset: the payloads are behind the header when
the offset is large enough on all data that is accepted. -/
theorem behind_iff {α : Type} {data : List UInt8} {accepted : Prop} {offset : Nat} {parses : α → Prop}
    {payload : α → List UInt8} (long : accepted → 20 ≤ data.length)
    (sound : ∀ a, parses a → accepted ∧ payload a = data.drop offset)
    (complete : accepted → offset ≤ data.length → ∃ a, parses a) :
    (∀ a, parses a → Behind data (payload a) offset) ↔ (accepted → 20 ≤ offset) := by
  constructor
  · intro withheld accept
    rcases Nat.lt_or_ge offset 20 with small | enough
    · have size := long accept
      obtain ⟨a, parsed⟩ := complete accept (by omega)
      exact (withheld a parsed).1
    · exact enough
  · intro enough a parsed
    obtain ⟨accept, cut⟩ := sound a parsed
    rw [cut, behind_drop_iff]
    exact enough accept

theorem IpPacket.of_parse {data : List UInt8} {packet : IpPacket}
    (parsed : parse data () = .done (some packet) ()) :
    (20 ≤ data.length ∧ version data = 4) ∧ packet.payload = data.drop (headerLength data) := by
  rcases Nat.lt_or_ge data.length 20 with short | long
  · rw [parse_of_short short] at parsed
    cases parsed
  by_cases four : version data = 4
  · by_cases inside : headerLength data ≤ data.length
    · obtain ⟨other, run, payload⟩ := parse_of_inside long four inside ()
      rw [run] at parsed
      cases parsed
      exact ⟨⟨long, four⟩, payload⟩
    · rw [parse_of_beyond long four inside] at parsed
      cases parsed
  · rw [parse_of_other_version long four] at parsed
    cases parsed

theorem TcpSegment.of_parse {data : List UInt8} {segment : TcpSegment}
    (parsed : parse data () = .done (some segment) ()) :
    20 ≤ data.length ∧ segment.payload = data.drop (dataOffset data) := by
  rcases Nat.lt_or_ge data.length 20 with short | long
  · rw [parse_of_short short] at parsed
    cases parsed
  by_cases inside : dataOffset data ≤ data.length
  · obtain ⟨other, run, payload⟩ := parse_of_inside long inside ()
    rw [run] at parsed
    cases parsed
    exact ⟨long, payload⟩
  · rw [parse_of_beyond long inside] at parsed
    cases parsed

/-- No byte of the fixed headers is delivered as payload exactly when the length fields of
what is accepted are at least five words. -/
theorem headers_withheld_iff (data : List UInt8) :
    (IpPacket.HeaderWithheld data ↔
      (20 ≤ data.length ∧ IpPacket.version data = 4 → 5 ≤ (data.getD 0 0 &&& 0x0f).toNat)) ∧
    (TcpSegment.HeaderWithheld data ↔
      (20 ≤ data.length → 5 ≤ (data.getD 12 0 >>> 4).toNat)) := by
  have words (field : Nat) : 20 ≤ field * 4 ↔ 5 ≤ field := by omega
  constructor
  · rw [← words]
    apply behind_iff (fun accepted => accepted.1)
    · exact fun packet => IpPacket.of_parse
    · rintro ⟨long, four⟩ inside
      obtain ⟨packet, parsed, _⟩ := IpPacket.parse_of_inside long four inside ()
      exact ⟨packet, parsed⟩
  · rw [← words]
    apply behind_iff (fun long => long)
    · exact fun segment => TcpSegment.of_parse
    · intro long inside
      obtain ⟨segment, parsed, _⟩ := TcpSegment.parse_of_inside long inside ()
      exact ⟨segment, parsed⟩

/-- With a length field of zero the whole packet is its own payload. -/
theorem header_delivered :
    (∃ packet, IpPacket.parse (0x40 :: List.replicate 19 0) () = .done (some packet) () ∧
      packet.payload = 0x40 :: List.replicate 19 0) ∧
    ∃ segment, TcpSegment.parse (List.replicate 20 0) () = .done (some segment) () ∧
      segment.payload = List.replicate 20 0 :=
  ⟨⟨_, rfl, rfl⟩, _, rfl, rfl⟩

end ComputeKernel

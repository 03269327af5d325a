import ComputeKernel.Support.Returns
import ComputeKernel.Net.Parsing

/-! The wire formats of frames and datagrams: what encoding makes of what was decoded,
and decoding of what was encoded. -/
namespace ComputeKernel
open Checked (Exec Returns)

variable {σ : Type}

theorem fromBe16_toNat (high low : UInt8) :
    (fromBe16 high low).toNat = high.toNat * 256 + low.toNat := by
  have high_lt := high.toNat_lt
  have low_lt := low.toNat_lt
  have shifted : high.toNat <<< 8 < 2 ^ 16 := by
    rw [Nat.shiftLeft_eq]
    omega
  rw [fromBe16, UInt16.toNat_or, UInt16.toNat_shiftLeft, UInt8.toNat_toUInt16, UInt8.toNat_toUInt16,
    show (8 : UInt16).toNat % 16 = 8 from rfl, Nat.mod_eq_of_lt shifted,
    ← Nat.shiftLeft_add_eq_or_of_lt low_lt, Nat.shiftLeft_eq]

theorem toBe16_fromBe16 (high low : UInt8) : toBe16 (fromBe16 high low) = [high, low] := by
  have high_lt := high.toNat_lt
  have low_lt := low.toNat_lt
  have first : (fromBe16 high low >>> 8).toUInt8 = high := by
    rw [← UInt8.toNat_inj, UInt16.toNat_toUInt8, UInt16.toNat_shiftRight, fromBe16_toNat,
      show (8 : UInt16).toNat % 16 = 8 from rfl, Nat.shiftRight_eq_div_pow]
    omega
  have second : (fromBe16 high low).toUInt8 = low := by
    rw [← UInt8.toNat_inj, UInt16.toNat_toUInt8, fromBe16_toNat]
    omega
  rw [toBe16, first, second]

theorem fromBe16_toBe16 (word : UInt16) : fromBe16 (word >>> 8).toUInt8 word.toUInt8 = word := by
  have word_lt := word.toNat_lt
  rw [← UInt16.toNat_inj, fromBe16_toNat, UInt16.toNat_toUInt8, UInt16.toNat_toUInt8,
    UInt16.toNat_shiftRight, show (8 : UInt16).toNat % 16 = 8 from rfl, Nat.shiftRight_eq_div_pow]
  omega

namespace EthernetFrame

/-- A frame whose parts stand one after another. -/
def layout (dst src : Octets 6) (high low : UInt8) (payload : List UInt8) : List UInt8 :=
  dst.val ++ (src.val ++ high :: low :: payload)

theorem exists_layout {data : List UInt8} (long : 14 ≤ data.length) :
    ∃ dst src high low payload, data = layout dst src high low payload := by
  have first : (data.take 6).length = 6 := by rw [List.length_take]; omega
  have second : ((data.drop 6).take 6).length = 6 := by
    rw [List.length_take, List.length_drop]
    omega
  have ethertype : 2 ≤ ((data.drop 6).drop 6).length := by
    rw [List.length_drop, List.length_drop]
    omega
  obtain ⟨high, low, payload, rest⟩ : ∃ high low payload,
      (data.drop 6).drop 6 = high :: low :: payload := by
    match (data.drop 6).drop 6, ethertype with
    | high :: low :: payload, _ => exact ⟨high, low, payload, rfl⟩
  refine ⟨⟨_, first⟩, ⟨_, second⟩, high, low, payload, ?_⟩
  change data = data.take 6 ++ ((data.drop 6).take 6 ++ high :: low :: payload)
  rw [← rest, List.take_append_drop, List.take_append_drop]

theorem parse_layout (dst src : Octets 6) (high low : UInt8) (payload : List UInt8) (s : σ) :
    parse (layout dst src high low payload) s =
      .done (some { dst, src, ethertype := fromBe16 high low, payload }) s := by
  have size : (layout dst src high low payload).length = payload.length + 14 := by
    simp only [layout, List.length_append, List.length_cons, dst.property, src.property]
    omega
  have first : ((layout dst src high low payload).take 6).drop 0 = dst.val :=
    List.take_left' dst.property
  have behind : (layout dst src high low payload).drop 6 = src.val ++ high :: low :: payload :=
    List.drop_left' dst.property
  have second : ((layout dst src high low payload).take 12).drop 6 = src.val := by
    rw [List.drop_take, behind]
    exact List.take_left' src.property
  have tail : (layout dst src high low payload).drop 12 = high :: low :: payload := by
    rw [← List.drop_drop (i := 6) (j := 6), behind]
    exact List.drop_left' src.property
  have last : (layout dst src high low payload).drop 14 = payload := by
    rw [← List.drop_drop (i := 2) (j := 12), tail]
    rfl
  unfold parse
  rw [if_neg (by omega), Exec.bind_of_done (Exec.slice_of_le (by omega) (by omega) s), first,
    Octets.tryInto_val]
  dsimp only
  rw [Exec.bind_of_done (Exec.slice_of_le (by omega) (by omega) s), second, Octets.tryInto_val]
  dsimp only
  rw [Exec.bind_of_done (readBe16_of_drop tail s),
    Exec.bind_of_done (Exec.sliceFrom_of_le (by omega) s), last, Exec.ret_run]

theorem serialize_of_lt {f : EthernetFrame} (fits : 14 + f.payload.length < 2 ^ 64) (s : σ) :
    f.serialize s = .done
      (layout f.dst f.src (f.ethertype >>> 8).toUInt8 f.ethertype.toUInt8 f.payload) s := by
  unfold serialize
  rw [Exec.bind_of_done (Exec.usizeAdd_of_lt fits s), Exec.ret_run, List.append_assoc,
    List.append_assoc]
  rfl

/-- Encoding and decoding of frames are inverse to each other, on all frames and on all
data of at least 14 bytes. No vector and no slice has more than `isize::MAX` bytes. -/
theorem ethernet_round_trip (s : σ) :
    (∀ f : EthernetFrame, f.payload.length < 2 ^ 63 →
      ∃ bytes, f.serialize s = .done bytes s ∧ parse bytes s = .done (some f) s) ∧
    (∀ data : List UInt8, 14 ≤ data.length → data.length < 2 ^ 63 →
      ∃ f, parse data s = .done (some f) s ∧ f.serialize s = .done data s) ∧
    ∀ data : List UInt8, data.length < 14 → parse data s = .done none s := by
  refine ⟨fun f short => ?_, fun data long short => ?_, fun data short => parse_of_short short s⟩
  · refine ⟨_, serialize_of_lt (by omega) s, ?_⟩
    rw [parse_layout, fromBe16_toBe16]
  · obtain ⟨dst, src, high, low, payload, rfl⟩ := exists_layout long
    refine ⟨_, parse_layout dst src high low payload s, ?_⟩
    have fits : 14 + payload.length < 2 ^ 64 := by
      simp only [layout, List.length_append, List.length_cons] at short
      omega
    have bytes := toBe16_fromBe16 high low
    unfold toBe16 at bytes
    injection bytes with first second
    injection second with second
    rw [serialize_of_lt fits, first, second]

/-- A broadcast with the start of an ARP request. -/
def broadcast : EthernetFrame :=
  { dst := ⟨List.replicate 6 0xff, rfl⟩
    src := ⟨[0x52, 0x54, 0x00, 0x12, 0x34, 0x56], rfl⟩
    ethertype := 0x0806
    payload := [0x00, 0x01, 0x08, 0x00, 0x06, 0x04, 0x00, 0x01] }

theorem ethernet_round_trip_broadcast :
    (∃ bytes, broadcast.serialize () = .done bytes () ∧ parse bytes () = .done (some broadcast) ()) ∧
      (∃ f : EthernetFrame, parse ((List.range 20).map UInt8.ofNat) () = .done (some f) () ∧
        f.serialize () = .done ((List.range 20).map UInt8.ofNat) ()) ∧
      parse ((List.range 13).map UInt8.ofNat) () = .done none () :=
  ⟨(ethernet_round_trip ()).1 broadcast (by decide),
    (ethernet_round_trip ()).2.1 ((List.range 20).map UInt8.ofNat) (by decide) (by decide),
    (ethernet_round_trip ()).2.2 ((List.range 13).map UInt8.ofNat) (by decide)⟩

end EthernetFrame

namespace UdpDatagram

/-- The number in the bytes 4 and 5. -/
def lengthField (data : List UInt8) : Nat := (data.getD 4 0).toNat * 256 + (data.getD 5 0).toNat

theorem exists_header {data : List UInt8} (long : 8 ≤ data.length) :
    ∃ a b c d e f g h rest, data = a :: b :: c :: d :: e :: f :: g :: h :: rest := by
  match data with
  | a :: b :: c :: d :: e :: f :: g :: h :: rest => exact ⟨a, b, c, d, e, f, g, h, rest, rfl⟩
  | [] | [_] | [_, _] | [_, _, _] | [_, _, _, _] | [_, _, _, _, _] | [_, _, _, _, _, _]
  | [_, _, _, _, _, _, _] => simp at long

theorem parse_header (a b c d e f g h : UInt8) (rest : List UInt8) (s : σ) :
    parse (a :: b :: c :: d :: e :: f :: g :: h :: rest) s =
      .done (if (fromBe16 e f).toNat < 8 ∨ (fromBe16 e f).toNat > rest.length + 8 then none
        else some
          { srcPort := fromBe16 a b
            dstPort := fromBe16 c d
            payload := rest.take ((fromBe16 e f).toNat - 8) }) s := by
  have src : readBe16 (a :: b :: c :: d :: e :: f :: g :: h :: rest) 0 s = .done (fromBe16 a b) s := rfl
  have dst : readBe16 (a :: b :: c :: d :: e :: f :: g :: h :: rest) 2 s = .done (fromBe16 c d) s := rfl
  have length : readBe16 (a :: b :: c :: d :: e :: f :: g :: h :: rest) 4 s = .done (fromBe16 e f) s :=
    rfl
  have size : (a :: b :: c :: d :: e :: f :: g :: h :: rest).length = rest.length + 8 := rfl
  unfold parse
  rw [size, if_neg (by omega), Exec.bind_of_done src, Exec.bind_of_done dst, Exec.bind_of_done length]
  split
  · rfl
  · next accepted =>
      have body : ((a :: b :: c :: d :: e :: f :: g :: h :: rest).take (fromBe16 e f).toNat).drop 8 =
          rest.take ((fromBe16 e f).toNat - 8) := by rw [List.drop_take]; rfl
      rw [Exec.bind_of_done (Exec.slice_of_le (by omega) (by omega) s), body, Exec.ret_run]

/-- The bytes of a datagram with a given length field. -/
def layout (d : UdpDatagram) (length : UInt16) : List UInt8 :=
  toBe16 d.srcPort ++ toBe16 d.dstPort ++ toBe16 length ++ toBe16 0 ++ d.payload

theorem serialize_of_lt {d : UdpDatagram} (fits : 8 + d.payload.length < 2 ^ 64) (s : σ) :
    d.serialize s = .done (d.layout (UInt16.ofNat (8 + d.payload.length))) s := by
  unfold serialize
  rw [Exec.bind_of_done (Exec.usizeAdd_of_lt fits s)]
  rfl

theorem serialize_returns (d : UdpDatagram) (s : σ) :
    Returns d.serialize (fun bytes s' =>
      bytes = d.layout (UInt16.ofNat (8 + d.payload.length)) ∧ s' = s) s :=
  Returns.bind (Returns.usizeAdd (Returns.ret ⟨rfl, rfl⟩))

/-- What an encoded datagram is decoded to. The length field has only the low bits of
the length. -/
theorem parse_serialize {d : UdpDatagram} {bytes : List UInt8} {s s' : σ}
    (encoded : d.serialize s = .done bytes s') :
    parse bytes s' =
      .done (if (8 + d.payload.length) % 2 ^ 16 < 8 then none
        else some { d with payload := d.payload.take ((8 + d.payload.length) % 2 ^ 16 - 8) }) s' := by
  obtain ⟨rfl, rfl⟩ := d.serialize_returns s bytes s' encoded
  have inside : ¬(8 + d.payload.length) % 2 ^ 16 > d.payload.length + 8 := by
    have low := Nat.mod_le (8 + d.payload.length) (2 ^ 16)
    omega
  change parse (_ :: _ :: _ :: _ :: _ :: _ :: _ :: _ :: d.payload) s' = _
  rw [parse_header, fromBe16_toBe16, fromBe16_toBe16, fromBe16_toBe16, UInt16.toNat_ofNat']
  simp only [inside, or_false]

/-- Encoding is undone by decoding exactly when the length fits into its field. -/
theorem udp_round_trip_iff {d : UdpDatagram} {bytes : List UInt8} {s s' : σ}
    (encoded : d.serialize s = .done bytes s') :
    parse bytes s' = .done (some d) s' ↔ d.payload.length ≤ 65527 := by
  rw [parse_serialize encoded]
  constructor
  · intro same
    obtain ⟨parsed, _⟩ := Checked.Outcome.done.inj same
    split at parsed
    · cases parsed
    · have payload := congrArg (fun d => d.payload.length) (Option.some.inj parsed)
      rw [List.length_take] at payload
      omega
  · intro short
    rw [Nat.mod_eq_of_lt (by omega), if_neg (by omega), Nat.add_sub_cancel_left, List.take_length]

theorem udp_round_trip_ping :
    ∃ bytes, (⟨4000, 53, [0x70, 0x69, 0x6e, 0x67]⟩ : UdpDatagram).serialize () = .done bytes () ∧
      parse bytes () = .done (some ⟨4000, 53, [0x70, 0x69, 0x6e, 0x67]⟩) () := by
  have encoded := serialize_of_lt (d := ⟨4000, 53, [0x70, 0x69, 0x6e, 0x67]⟩) (by decide) ()
  exact ⟨_, encoded, (udp_round_trip_iff encoded).mpr (by decide)⟩

theorem rejected_of_length {d : UdpDatagram} (size : d.payload.length = 65528) (s : σ) :
    ∃ bytes, d.serialize s = .done bytes s ∧ parse bytes s = .done none s := by
  have encoded := serialize_of_lt (d := d) (by rw [size]; decide) s
  refine ⟨_, encoded, ?_⟩
  rw [parse_serialize encoded, size, if_pos (by decide)]

/-- A payload of 65528 bytes is encoded with a length field of zero, and decoding
rejects it. -/
theorem udp_long_payload_rejected :
    ∃ bytes, (⟨4000, 53, List.replicate 65528 0⟩ : UdpDatagram).serialize () = .done bytes () ∧
      parse bytes () = .done none () :=
  rejected_of_length List.length_replicate ()

theorem lengthField_header (a b c d e f g h : UInt8) (rest : List UInt8) :
    lengthField (a :: b :: c :: d :: e :: f :: g :: h :: rest) = (fromBe16 e f).toNat :=
  (fromBe16_toNat e f).symm

theorem parse_of_short {data : List UInt8} (short : ¬8 ≤ data.length) (s : σ) :
    parse data s = .done none s := by
  rw [parse, if_pos (by omega), Exec.ret_run]

theorem parse_accepts_iff (data : List UInt8) (s : σ) :
    (∃ d, parse data s = .done (some d) s) ↔
      8 ≤ data.length ∧ 8 ≤ lengthField data ∧ lengthField data ≤ data.length := by
  by_cases long : 8 ≤ data.length
  · obtain ⟨a, b, c, d, e, f, g, h, rest, rfl⟩ := exists_header long
    rw [parse_header, lengthField_header,
      show (a :: b :: c :: d :: e :: f :: g :: h :: rest).length = rest.length + 8 from rfl]
    split
    · next rejected =>
        constructor
        · rintro ⟨d, ⟨⟩⟩
        · omega
    · next accepted =>
        constructor
        · omega
        · exact fun _ => ⟨_, rfl⟩
  · rw [parse_of_short long]
    constructor
    · rintro ⟨d, ⟨⟩⟩
    · exact fun accepted => absurd accepted.1 long

/-- Encoding a decoded datagram gives back the data up to the length field, with zeros
in place of the checksum. -/
theorem serialize_parse {data : List UInt8} {d : UdpDatagram} {s s' : σ}
    (decoded : parse data s = .done (some d) s') :
    d.serialize s' = .done (((data.take (lengthField data)).set 6 0).set 7 0) s' := by
  have long : 8 ≤ data.length := by
    apply Decidable.byContradiction
    intro short
    rw [parse_of_short short] at decoded
    cases decoded
  obtain ⟨a, b, c, e, f, g, h, i, rest, rfl⟩ := exists_header long
  have field_lt := (fromBe16 f g).toNat_lt
  rw [parse_header] at decoded
  rw [lengthField_header]
  split at decoded
  · cases decoded
  · next accepted =>
      cases decoded
      obtain ⟨body, length⟩ : ∃ body, (fromBe16 f g).toNat = body + 8 :=
        ⟨_, (Nat.sub_add_cancel (by omega)).symm⟩
      have payload : (rest.take ((fromBe16 f g).toNat - 8)).length = body := by
        rw [List.length_take]
        omega
      have word : UInt16.ofNat (8 + body) = fromBe16 f g := by
        rw [← UInt16.toNat_inj, UInt16.toNat_ofNat', length]
        omega
      rw [serialize_of_lt (by rw [payload]; omega), payload, word, layout, toBe16_fromBe16,
        toBe16_fromBe16, toBe16_fromBe16, length, Nat.add_sub_cancel]
      rfl

/-- Decoding and encoding are inverse up to the checksum, on exactly the data that is
accepted. -/
theorem udp_decode_encode (data : List UInt8) (s : σ) :
    ((∃ d, parse data s = .done (some d) s) ↔
        8 ≤ data.length ∧ 8 ≤ lengthField data ∧ lengthField data ≤ data.length) ∧
      ∀ d s', parse data s = .done (some d) s' →
        d.serialize s' = .done (((data.take (lengthField data)).set 6 0).set 7 0) s' :=
  ⟨parse_accepts_iff data s, fun _ _ decoded => serialize_parse decoded⟩

end UdpDatagram
end ComputeKernel

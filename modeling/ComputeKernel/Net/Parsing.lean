import ComputeKernel.Net.Model

/-! What each parser returns, and when a length field makes it slice past the end. -/
namespace ComputeKernel
open Checked (Exec)

variable {σ : Type} {data : List UInt8}

theorem Octets.tryInto_of_length {n : Nat} {bytes : List UInt8} (fits : bytes.length = n) :
    Octets.tryInto n bytes = some ⟨bytes, fits⟩ := dif_pos fits

theorem Octets.tryInto_val {n : Nat} (octets : Octets n) : Octets.tryInto n octets.val = some octets :=
  dif_pos octets.property

theorem u8Mul_four {a : UInt8} (small : a.toNat < 16) (s : σ) :
    ∃ product, Exec.u8Mul a 4 s = .done product s ∧ product.toNat = a.toNat * 4 := by
  have fits : a.toNat * (4 : UInt8).toNat < 2 ^ 8 := by
    rw [show (4 : UInt8).toNat = 4 from rfl]
    omega
  refine ⟨a * 4, ?_, ?_⟩
  · rw [Exec.u8Mul, if_pos fits, Exec.ret_run]
  · rw [UInt8.toNat_mul, Nat.mod_eq_of_lt fits]
    rfl

theorem readBe16_of_lt {start : Nat} (inside : start + 1 < data.length) (s : σ) :
    readBe16 data start s = .done (fromBe16 data[start] data[start + 1]) s := by
  unfold readBe16
  rw [Exec.bind_of_done (Exec.index_of_lt (by omega) s),
    Exec.bind_of_done (Exec.index_of_lt inside s), Exec.ret_run]

theorem readBe16_of_drop {start : Nat} {high low : UInt8} {rest : List UInt8}
    (found : data.drop start = high :: low :: rest) (s : σ) :
    readBe16 data start s = .done (fromBe16 high low) s := by
  have inside : start + 1 < data.length := by
    have size := congrArg List.length found
    rw [List.length_drop, List.length_cons, List.length_cons] at size
    omega
  have first : data[start] = high := by
    have cell := congrArg (·[0]?) found
    simpa [List.getElem?_drop, show start < data.length by omega] using cell
  have second : data[start + 1] = low := by
    have cell := congrArg (·[1]?) found
    simpa [List.getElem?_drop, inside] using cell
  rw [readBe16_of_lt inside, first, second]

theorem readBe32_of_lt {start : Nat} (inside : start + 3 < data.length) (s : σ) :
    readBe32 data start s =
      .done (fromBe32 data[start] data[start + 1] data[start + 2] data[start + 3]) s := by
  unfold readBe32
  rw [Exec.bind_of_done (Exec.index_of_lt (by omega) s),
    Exec.bind_of_done (Exec.index_of_lt (by omega) s),
    Exec.bind_of_done (Exec.index_of_lt (by omega) s),
    Exec.bind_of_done (Exec.index_of_lt inside s), Exec.ret_run]

/-! Ethernet. -/
namespace EthernetFrame

theorem parse_of_short (short : data.length < 14) (s : σ) : parse data s = .done none s := by
  rw [parse, if_pos short, Exec.ret_run]

theorem parse_of_long (long : 14 ≤ data.length) (s : σ) :
    ∃ frame, parse data s = .done (some frame) s ∧ frame.payload = data.drop 14 := by
  have dst : ((data.take 6).drop 0).length = 6 := by simp; omega
  have src : ((data.take 12).drop 6).length = 6 := by simp; omega
  unfold parse
  rw [if_neg (by omega), Exec.bind_of_done (Exec.slice_of_le (by omega) (by omega) s),
    Octets.tryInto_of_length dst]
  dsimp only
  rw [Exec.bind_of_done (Exec.slice_of_le (by omega) (by omega) s), Octets.tryInto_of_length src]
  dsimp only
  rw [Exec.bind_of_done (readBe16_of_lt (by omega) s),
    Exec.bind_of_done (Exec.sliceFrom_of_le long s), Exec.ret_run]
  exact ⟨_, rfl, rfl⟩

end EthernetFrame

/-- Code that ends by cutting its data at an offset: what it returns is the rest of the
data with a header put on it, and it panics when the offset is past the end. -/
theorem cut_inside {α : Type} {m : Exec σ (Option α)} {offset : Nat} {payload : α → List UInt8}
    {header : List UInt8 → α} {s : σ} (carries : ∀ rest, payload (header rest) = rest)
    (cuts : m s = (Exec.sliceFrom data offset >>= fun rest => Exec.ret (some (header rest))) s)
    (inside : offset ≤ data.length) :
    ∃ parsed, m s = .done (some parsed) s ∧ payload parsed = data.drop offset := by
  rw [cuts, Exec.bind_of_done (Exec.sliceFrom_of_le inside s), Exec.ret_run]
  exact ⟨_, rfl, carries _⟩

theorem cut_beyond {α : Type} {m : Exec σ (Option α)} {offset : Nat} {header : List UInt8 → α}
    {s : σ}
    (cuts : m s = (Exec.sliceFrom data offset >>= fun rest => Exec.ret (some (header rest))) s)
    (beyond : ¬offset ≤ data.length) : m s = .panicked .bounds := by
  rw [cuts]
  exact Exec.bind_of_panicked (Exec.sliceFrom_of_gt beyond s)

theorem getD_of_lt {i : Nat} (inside : i < data.length) : data.getD i 0 = data[i] := by
  rw [List.getD_eq_getElem?_getD, List.getElem?_eq_getElem inside, Option.getD_some]

/-! IPv4. -/
namespace IpPacket

/-- The version field. -/
def version (data : List UInt8) : UInt8 := data.getD 0 0 >>> 4

/-- The header length in bytes, four times the `IHL` field. -/
def headerLength (data : List UInt8) : Nat := (data.getD 0 0 &&& 0x0f).toNat * 4

theorem parse_of_short (short : data.length < 20) (s : σ) : parse data s = .done none s := by
  rw [parse, if_pos short, Exec.ret_run]

theorem ihl_lt (byte : UInt8) : (byte &&& 0x0f).toNat < 16 := by
  rw [UInt8.toNat_and]
  exact Nat.lt_of_le_of_lt Nat.and_le_right (by decide)

theorem parse_of_other_version (long : 20 ≤ data.length) (other : version data ≠ 4) (s : σ) :
    parse data s = .done none s := by
  unfold version at other
  rw [getD_of_lt (by omega)] at other
  unfold parse
  rw [if_neg (by omega), Exec.bind_of_done (Exec.index_of_lt (by omega) s), if_pos other,
    Exec.ret_run]

/-- A packet of version 4 is cut at its header length. -/
theorem parse_cuts (long : 20 ≤ data.length) (four : version data = 4) (s : σ) :
    ∃ header : List UInt8 → IpPacket, (∀ rest, (header rest).payload = rest) ∧
      parse data s = (Exec.sliceFrom data (headerLength data) >>= fun rest =>
        Exec.ret (some (header rest))) s := by
  have src : ((data.take 16).drop 12).length = 4 := by simp; omega
  have dst : ((data.take 20).drop 16).length = 4 := by simp; omega
  unfold version at four
  unfold headerLength parse
  rw [getD_of_lt (by omega)] at four ⊢
  obtain ⟨ihl, scaled, value⟩ := u8Mul_four (ihl_lt data[0]) s
  rw [← value, if_neg (by omega), Exec.bind_of_done (Exec.index_of_lt (by omega) s),
    if_neg (fun other => other four), Exec.bind_of_done scaled,
    Exec.bind_of_done (Exec.index_of_lt (by omega) s),
    Exec.bind_of_done (Exec.index_of_lt (by omega) s),
    Exec.bind_of_done (Exec.slice_of_le (by omega) (by omega) s), Octets.tryInto_of_length src]
  dsimp only
  rw [Exec.bind_of_done (Exec.slice_of_le (by omega) (by omega) s), Octets.tryInto_of_length dst]
  exact ⟨_, fun rest => rfl, rfl⟩

theorem parse_of_inside (long : 20 ≤ data.length) (four : version data = 4)
    (inside : headerLength data ≤ data.length) (s : σ) :
    ∃ packet, parse data s = .done (some packet) s ∧
      packet.payload = data.drop (headerLength data) := by
  obtain ⟨header, carries, cuts⟩ := parse_cuts long four s
  exact cut_inside carries cuts inside

theorem parse_of_beyond (long : 20 ≤ data.length) (four : version data = 4)
    (beyond : ¬headerLength data ≤ data.length) (s : σ) :
    parse data s = .panicked .bounds := by
  obtain ⟨header, _, cuts⟩ := parse_cuts long four s
  exact cut_beyond cuts beyond

end IpPacket

/-! TCP. -/
namespace TcpSegment

/-- The data offset in bytes, four times the field. -/
def dataOffset (data : List UInt8) : Nat := (data.getD 12 0 >>> 4).toNat * 4

theorem parse_of_short (short : data.length < 20) (s : σ) : parse data s = .done none s := by
  rw [parse, if_pos short, Exec.ret_run]

theorem offset_lt (byte : UInt8) : (byte >>> 4).toNat < 16 := by
  have below := byte.toNat_lt
  rw [UInt8.toNat_shiftRight, show (4 : UInt8).toNat % 8 = 4 from rfl, Nat.shiftRight_eq_div_pow]
  omega

theorem parse_cuts (long : 20 ≤ data.length) (s : σ) :
    ∃ header : List UInt8 → TcpSegment, (∀ rest, (header rest).payload = rest) ∧
      parse data s = (Exec.sliceFrom data (dataOffset data) >>= fun rest =>
        Exec.ret (some (header rest))) s := by
  unfold dataOffset parse
  rw [getD_of_lt (by omega)]
  obtain ⟨offset, scaled, value⟩ := u8Mul_four (offset_lt data[12]) s
  rw [← value, if_neg (by omega), Exec.bind_of_done (readBe16_of_lt (by omega) s),
    Exec.bind_of_done (readBe16_of_lt (by omega) s),
    Exec.bind_of_done (readBe32_of_lt (by omega) s),
    Exec.bind_of_done (readBe32_of_lt (by omega) s),
    Exec.bind_of_done (Exec.index_of_lt (by omega) s), Exec.bind_of_done scaled,
    Exec.bind_of_done (Exec.index_of_lt (by omega) s),
    Exec.bind_of_done (readBe16_of_lt (by omega) s)]
  exact ⟨_, fun rest => rfl, rfl⟩

theorem parse_of_inside (long : 20 ≤ data.length) (inside : dataOffset data ≤ data.length)
    (s : σ) :
    ∃ segment, parse data s = .done (some segment) s ∧
      segment.payload = data.drop (dataOffset data) := by
  obtain ⟨header, carries, cuts⟩ := parse_cuts long s
  exact cut_inside carries cuts inside

theorem parse_of_beyond (long : 20 ≤ data.length) (beyond : ¬dataOffset data ≤ data.length)
    (s : σ) : parse data s = .panicked .bounds := by
  obtain ⟨header, _, cuts⟩ := parse_cuts long s
  exact cut_beyond cuts beyond

end TcpSegment

/-- The length field of a datagram is checked before it is used. -/
theorem UdpDatagram.parse_returns (data : List UInt8) (s : σ) :
    ∃ result, UdpDatagram.parse data s = .done result s := by
  unfold UdpDatagram.parse
  split
  · exact ⟨none, rfl⟩
  rw [Exec.bind_of_done (readBe16_of_lt (by omega) s),
    Exec.bind_of_done (readBe16_of_lt (by omega) s),
    Exec.bind_of_done (readBe16_of_lt (by omega) s)]
  split
  · exact ⟨none, rfl⟩
  · rw [Exec.bind_of_done (Exec.slice_of_le (by omega) (by omega) s)]
    exact ⟨_, rfl⟩

end ComputeKernel

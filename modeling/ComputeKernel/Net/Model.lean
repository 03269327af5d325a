import ComputeKernel.Support.Checked

/-! The packet formats of the network stack (`kernel/src/net`), with every check that
Rust makes of an index or a slice. -/
namespace ComputeKernel
open Checked (Exec)

/-- A byte array of a fixed length. -/
def Octets (n : Nat) : Type := { bytes : List UInt8 // bytes.length = n }

instance : DecidableEq (Octets n) := inferInstanceAs (DecidableEq { _bytes : List UInt8 // _ })

/-- `slice.try_into().ok()`. -/
def Octets.tryInto (n : Nat) (bytes : List UInt8) : Option (Octets n) :=
  if fits : bytes.length = n then some ⟨bytes, fits⟩ else none

/-- `u16::from_be_bytes`. -/
def fromBe16 (high low : UInt8) : UInt16 := high.toUInt16 <<< 8 ||| low.toUInt16

/-- `u32::from_be_bytes`. -/
def fromBe32 (a b c d : UInt8) : UInt32 :=
  a.toUInt32 <<< 24 ||| b.toUInt32 <<< 16 ||| c.toUInt32 <<< 8 ||| d.toUInt32

/-- `u16::to_be_bytes`. -/
def toBe16 (word : UInt16) : List UInt8 := [(word >>> 8).toUInt8, word.toUInt8]

/-- `u16::from_be_bytes([data[at], data[at + 1]])`. -/
def readBe16 (data : List UInt8) (start : Nat) : Exec σ UInt16 := do
  let high ← Exec.index data start
  let low ← Exec.index data (start + 1)
  Exec.ret (fromBe16 high low)

def readBe32 (data : List UInt8) (start : Nat) : Exec σ UInt32 := do
  let a ← Exec.index data start
  let b ← Exec.index data (start + 1)
  let c ← Exec.index data (start + 2)
  let d ← Exec.index data (start + 3)
  Exec.ret (fromBe32 a b c d)

structure EthernetFrame where
  dst : Octets 6
  src : Octets 6
  ethertype : UInt16
  payload : List UInt8
  deriving DecidableEq

def EthernetFrame.parse (data : List UInt8) : Exec σ (Option EthernetFrame) :=
  if data.length < 14 then Exec.ret none
  else do
    let dst ← Exec.slice data 0 6
    match Octets.tryInto 6 dst with
    | none => Exec.ret none
    | some dst => do
        let src ← Exec.slice data 6 12
        match Octets.tryInto 6 src with
        | none => Exec.ret none
        | some src => do
            let ethertype ← readBe16 data 12
            let payload ← Exec.sliceFrom data 14
            Exec.ret (some { dst, src, ethertype, payload })

/-- The sum is the capacity that is reserved for the bytes. -/
def EthernetFrame.serialize (f : EthernetFrame) : Exec σ (List UInt8) := do
  let _ ← Exec.usizeAdd 14 f.payload.length
  Exec.ret (f.dst.val ++ f.src.val ++ toBe16 f.ethertype ++ f.payload)

structure IpPacket where
  src : Octets 4
  dst : Octets 4
  protocol : UInt8
  ttl : UInt8
  payload : List UInt8
  deriving DecidableEq

def IpPacket.parse (data : List UInt8) : Exec σ (Option IpPacket) :=
  if data.length < 20 then Exec.ret none
  else do
    let versionIhl ← Exec.index data 0
    if versionIhl >>> 4 ≠ 4 then Exec.ret none
    else do
      let ihl ← Exec.u8Mul (versionIhl &&& 0x0f) 4
      let ttl ← Exec.index data 8
      let protocol ← Exec.index data 9
      let src ← Exec.slice data 12 16
      match Octets.tryInto 4 src with
      | none => Exec.ret none
      | some src => do
          let dst ← Exec.slice data 16 20
          match Octets.tryInto 4 dst with
          | none => Exec.ret none
          | some dst => do
              let payload ← Exec.sliceFrom data ihl.toNat
              Exec.ret (some { src, dst, protocol, ttl, payload })

/-- `bytes.chunks(2)`. -/
def chunks2 : List UInt8 → List (List UInt8)
  | [] => []
  | [last] => [[last]]
  | high :: low :: rest => [high, low] :: chunks2 rest

/-- The word of a chunk; a single byte is its high half. -/
def IpPacket.chunkWord (chunk : List UInt8) : Exec σ UInt32 :=
  if chunk.length = 2 then do
    let high ← Exec.index chunk 0
    let low ← Exec.index chunk 1
    Exec.ret (fromBe16 high low).toUInt32
  else do
    let high ← Exec.index chunk 0
    Exec.ret (high.toUInt32 <<< 8)

def IpPacket.addChunks : List (List UInt8) → UInt32 → Exec σ UInt32
  | [], sum => Exec.ret sum
  | chunk :: chunks, sum => do
      let word ← chunkWord chunk
      let sum ← Exec.u32Add sum word
      addChunks chunks sum

/-- Every turn of the folding loop makes the sum smaller, so there are at most as many
turns as it is large. -/
def IpPacket.checksum (header : List UInt8) : Exec σ UInt16 := do
  let sum ← addChunks (chunks2 header) 0
  let sum ← Exec.whileLoop (fun sum : UInt32 => sum >>> 16 != 0)
    (fun sum => Exec.u32Add (sum &&& 0xffff) (sum >>> 16)) (sum.toNat + 1) sum
  Exec.ret (~~~sum.toUInt16)

/-- The bits that `TcpFlags` names, `FIN` to `CWR`. -/
def tcpFlags : UInt8 := 0x01 ||| 0x02 ||| 0x04 ||| 0x08 ||| 0x10 ||| 0x20 ||| 0x40 ||| 0x80

structure TcpSegment where
  srcPort : UInt16
  dstPort : UInt16
  seqNum : UInt32
  ackNum : UInt32
  flags : UInt8
  window : UInt16
  payload : List UInt8
  deriving DecidableEq

def TcpSegment.parse (data : List UInt8) : Exec σ (Option TcpSegment) :=
  if data.length < 20 then Exec.ret none
  else do
    let srcPort ← readBe16 data 0
    let dstPort ← readBe16 data 2
    let seqNum ← readBe32 data 4
    let ackNum ← readBe32 data 8
    let offsetByte ← Exec.index data 12
    let dataOffset ← Exec.u8Mul (offsetByte >>> 4) 4
    let flags ← Exec.index data 13
    let window ← readBe16 data 14
    let payload ← Exec.sliceFrom data dataOffset.toNat
    Exec.ret (some
      { srcPort
        dstPort
        seqNum
        ackNum
        flags := flags &&& tcpFlags
        window
        payload })

structure UdpDatagram where
  srcPort : UInt16
  dstPort : UInt16
  payload : List UInt8
  deriving DecidableEq

def UdpDatagram.parse (data : List UInt8) : Exec σ (Option UdpDatagram) :=
  if data.length < 8 then Exec.ret none
  else do
    let srcPort ← readBe16 data 0
    let dstPort ← readBe16 data 2
    let length ← readBe16 data 4
    if length.toNat < 8 ∨ length.toNat > data.length then Exec.ret none
    else do
      let payload ← Exec.slice data 8 length.toNat
      Exec.ret (some { srcPort, dstPort, payload })

/-- The cast `as u16` keeps the low bits of the length. -/
def UdpDatagram.serialize (d : UdpDatagram) : Exec σ (List UInt8) := do
  let total ← Exec.usizeAdd 8 d.payload.length
  let length := UInt16.ofNat total
  Exec.ret (toBe16 d.srcPort ++ toBe16 d.dstPort ++ toBe16 length ++ toBe16 0 ++ d.payload)

end ComputeKernel

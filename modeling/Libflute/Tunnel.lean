import Libflute.Types
import Libflute.Library.Octets

/-! The IP and UDP headers in front of a packet that is sent through a tunnel. -/

namespace Libflute

/-- An IPv4 address and a port. -/
structure Endpoint where
  address : Nat
  port : Nat
  deriving DecidableEq, Repr

def ipprotoUdp : Nat := 17

/-- The sum of the 16-bit words; a last odd byte is the upper half of a word. -/
def sumWords : List UInt8 → (cksum : Nat) → Nat
  | a :: b :: rest, cksum => sumWords rest ((cksum + (a.toNat * 256 + b.toNat)) % 2 ^ 32)
  | [a], cksum => (cksum + a.toNat * 256) % 2 ^ 32
  | [], cksum => cksum

/-- Adding the carries. Three rounds take any 32-bit sum below 2 ^ 16. -/
def foldCarries : (rounds cksum : Nat) → Nat
  | 0, cksum => cksum
  | rounds + 1, cksum =>
    if cksum / 2 ^ 16 = 0 then cksum else foldCarries rounds (cksum % 2 ^ 16 + cksum / 2 ^ 16)

def calculateSum (buffer : List UInt8) : Nat := 2 ^ 16 - 1 - foldCarries 3 (sumWords buffer 0) % 2 ^ 16

/-- The fields of the pseudo header the UDP checksum covers. -/
def pseudoHeader (endpoint : Endpoint) (dataLen localAddress : Nat) : List UInt8 :=
  Octets.be32 localAddress ++ Octets.be32 endpoint.address ++
    (0 :: UInt8.ofNat ipprotoUdp :: Octets.be16 (dataLen + 8))

def udpHeader (endpoint : Endpoint) (dataLen sum : Nat) : List UInt8 :=
  Octets.be16 endpoint.port ++ Octets.be16 endpoint.port ++ Octets.be16 (dataLen + 8) ++ Octets.be16 sum

def createUdpPkt (endpoint : Endpoint) (data : List UInt8) (localAddress : Nat) : List UInt8 :=
  let sum := calculateSum (pseudoHeader endpoint data.length localAddress ++
    udpHeader endpoint data.length 0 ++ data)
  udpHeader endpoint data.length sum ++ data

def ipHeader (endpoint : Endpoint) (pktSize localAddress sum : Nat) : List UInt8 :=
  0x45 :: 0 :: (Octets.be16 pktSize ++ Octets.be16 0 ++ Octets.be16 0 ++
    ((63 : UInt8) :: UInt8.ofNat ipprotoUdp :: Octets.be16 sum) ++
    Octets.be32 localAddress ++ Octets.be32 endpoint.address)

def createIpHdr (endpoint : Endpoint) (pktSize localAddress : Nat) : List UInt8 :=
  ipHeader endpoint pktSize localAddress (calculateSum (ipHeader endpoint pktSize localAddress 0))

/-- The datagram that carries a packet through the tunnel. -/
def tunnelled (endpoint : Endpoint) (localAddress : Nat) (packet : List UInt8) : List UInt8 :=
  createIpHdr endpoint (packet.length + 20 + 8) localAddress ++ createUdpPkt endpoint packet localAddress

theorem length_tunnelled (endpoint : Endpoint) (localAddress : Nat) (packet : List UInt8) :
    (tunnelled endpoint localAddress packet).length = 28 + packet.length := by
  have ip : (createIpHdr endpoint (packet.length + 20 + 8) localAddress).length = 20 := by
    simp [createIpHdr, ipHeader]
  have udp : ∀ sum, (udpHeader endpoint packet.length sum).length = 8 := fun sum => by simp [udpHeader]
  rw [tunnelled, createUdpPkt, List.length_append, List.length_append, ip, udp]
  omega

/-- Behind the two headers lies the packet. -/
theorem drop_tunnelled (endpoint : Endpoint) (localAddress : Nat) (packet : List UInt8) :
    (tunnelled endpoint localAddress packet).drop 28 = packet := by
  have ip : (createIpHdr endpoint (packet.length + 20 + 8) localAddress).length = 20 := by
    simp [createIpHdr, ipHeader]
  have udp : ∀ sum, (udpHeader endpoint packet.length sum).length = 8 := fun sum => by simp [udpHeader]
  rw [tunnelled, createUdpPkt, ← List.append_assoc]
  exact List.drop_left' (by rw [List.length_append, ip, udp])

end Libflute

import Libflute.AlcPacket
import Libflute.Library.OnesComplement
import Libflute.Tunnel

/-! The checksums of what is sent through the tunnel. -/

namespace Libflute
open OnesComplement

/-- The IPv4 pseudo header that goes with a datagram: the addresses and the
protocol of its IP header and the length of its UDP header. -/
def pseudoHeaderOf (datagram : List UInt8) : List UInt8 :=
  (datagram.drop 12).take 8 ++ (0 :: (datagram.drop 9).take 1) ++ (datagram.drop 24).take 2

/-- A datagram whose IP header is 20 bytes long, whose checksums are right and used, and which carries a packet. -/
structure Carries (datagram packet : List UInt8) : Prop where
  headerLength : datagram.head? = some 0x45
  ip : sum (datagram.take 20) = 2 ^ 16 - 1
  udp : sum (pseudoHeaderOf datagram ++ datagram.drop 20) = 2 ^ 16 - 1
  used : Octets.read16 (datagram.drop 26) ≠ some 0
  payload : datagram.drop 28 = packet

theorem sumWords_eq (bytes : List UInt8) {cksum : Nat} (small : cksum + (words bytes).sum < 2 ^ 32) :
    sumWords bytes cksum = cksum + (words bytes).sum := by
  induction bytes, cksum using sumWords.induct with
  | case1 a b rest cksum ih =>
    rw [words, List.sum_cons] at small ⊢
    rw [← Nat.add_assoc] at small ⊢
    have below := (Nat.le_add_right _ _).trans_lt small
    rw [Nat.mod_eq_of_lt below] at ih
    rw [sumWords, Nat.mod_eq_of_lt below, ih small]
  | case2 a cksum =>
    rw [words, List.sum_singleton] at small ⊢
    rw [sumWords, Nat.mod_eq_of_lt small]
  | case3 cksum => rfl

theorem foldCarries_eq {n : Nat} (small : n < 2 ^ 32) : foldCarries 3 n = residue n := by
  have step : ∀ m, m / 2 ^ 16 ≠ 0 → residue (m % 2 ^ 16 + m / 2 ^ 16) = residue m := by
    intro m large
    unfold residue
    split <;> split <;> omega
  have word : ∀ m, m / 2 ^ 16 = 0 → m = residue m := fun m low => (residue_of_lt (by omega)).symm
  simp only [foldCarries]
  split
  · next low => exact word n low
  · next first =>
    rw [← step n first]
    split
    · next low => exact word _ low
    · next second =>
      rw [← step _ second]
      split
      · next low => exact word _ low
      · omega

theorem calculateSum_eq {bytes : List UInt8} (short : bytes.length ≤ 2 ^ 16) :
    calculateSum bytes = 2 ^ 16 - 1 - residue (words bytes).sum := by
  have bound := sum_words_le bytes
  have small : (words bytes).sum < 2 ^ 32 := by omega
  rw [calculateSum, sumWords_eq bytes (by omega), Nat.zero_add, foldCarries_eq small,
    Nat.mod_eq_of_lt (residue_lt _)]

/-- The words that the UDP checksum is the complement of. -/
def checkedTotal (endpoint : Endpoint) (localAddress : Nat) (packet : List UInt8) : Nat :=
  (words (pseudoHeader endpoint packet.length localAddress ++ udpHeader endpoint packet.length 0 ++ packet)).sum

section parts
variable (endpoint : Endpoint) (localAddress : Nat) (packet : List UInt8)

/-- The protocol is in the pseudo header, so the sum is not zero. -/
theorem checkedTotal_pos : 0 < checkedTotal endpoint localAddress packet := by
  rw [checkedTotal, pseudoHeader, List.append_assoc, List.append_assoc, words_append (by simp), List.sum_append]
  refine Nat.add_pos_right _ ?_
  rw [List.cons_append, List.cons_append, words, List.sum_cons]
  exact Nat.add_pos_left (by decide) _

theorem length_createIpHdr (pktSize : Nat) : (createIpHdr endpoint pktSize localAddress).length = 20 := by
  simp [createIpHdr, ipHeader]

/-- The front and the back of the IP header around its checksum. -/
theorem ipHeader_split (pktSize : Nat) : ∃ front back, 2 ∣ front.length ∧ 0 < (words front).sum ∧
    ∀ sum, ipHeader endpoint pktSize localAddress sum = front ++ (Octets.be16 sum ++ back) := by
  refine ⟨0x45 :: 0 :: (Octets.be16 pktSize ++ Octets.be16 0 ++ Octets.be16 0 ++ [63, UInt8.ofNat ipprotoUdp]),
    Octets.be32 localAddress ++ Octets.be32 endpoint.address, by simp, ?_, fun sum => ?_⟩
  · rw [words, List.sum_cons]
    exact Nat.add_pos_left (by decide) _
  · simp [ipHeader]

theorem ip_sum (pktSize : Nat) : sum (createIpHdr endpoint pktSize localAddress) = 2 ^ 16 - 1 := by
  obtain ⟨front, back, even, positive, split⟩ := ipHeader_split endpoint localAddress pktSize
  have length : (ipHeader endpoint pktSize localAddress 0).length ≤ 2 ^ 16 := by simp [ipHeader]
  rw [createIpHdr, calculateSum_eq length, split, split]
  refine sum_checksum even back ?_
  rw [sum_words_be16 even]
  omega

theorem udp_sum (short : packet.length + 20 ≤ 2 ^ 16) :
    sum (pseudoHeader endpoint packet.length localAddress ++ createUdpPkt endpoint packet localAddress) =
      2 ^ 16 - 1 := by
  set front := pseudoHeader endpoint packet.length localAddress ++ (Octets.be16 endpoint.port ++
    Octets.be16 endpoint.port ++ Octets.be16 (packet.length + 8)) with isFront
  have split : ∀ sum, pseudoHeader endpoint packet.length localAddress ++
      udpHeader endpoint packet.length sum ++ packet = front ++ (Octets.be16 sum ++ packet) := by
    intro sum
    simp [isFront, udpHeader]
  have length : (pseudoHeader endpoint packet.length localAddress ++ udpHeader endpoint packet.length 0 ++
      packet).length ≤ 2 ^ 16 := by
    simp only [pseudoHeader, udpHeader, List.length_append, List.length_cons, Octets.length_be16, Octets.length_be32]
    omega
  have even : 2 ∣ front.length := by simp [isFront, pseudoHeader]
  rw [createUdpPkt, calculateSum_eq length, ← List.append_assoc, split, split]
  refine sum_checksum even packet ?_
  rw [← split]
  exact checkedTotal_pos endpoint localAddress packet

/-- What the datagram is made of. -/
theorem tunnelled_eq : ∃ ip, ip.length = 20 ∧ sum ip = 2 ^ 16 - 1 ∧ ip.head? = some 0x45 ∧
    (ip.drop 9).take 1 = [UInt8.ofNat ipprotoUdp] ∧
    (ip.drop 12).take 8 = Octets.be32 localAddress ++ Octets.be32 endpoint.address ∧
    tunnelled endpoint localAddress packet = ip ++ createUdpPkt endpoint packet localAddress := by
  refine ⟨_, length_createIpHdr endpoint localAddress (packet.length + 20 + 8), ip_sum _ _ _, rfl, rfl, ?_, rfl⟩
  simp [createIpHdr, ipHeader, Octets.be32, Octets.be16]

/-- The checksum field of the UDP header. -/
theorem udp_field (short : packet.length + 20 ≤ 2 ^ 16) :
    Octets.read16 ((createUdpPkt endpoint packet localAddress).drop 6) =
      some (2 ^ 16 - 1 - residue (checkedTotal endpoint localAddress packet)) := by
  have length : (pseudoHeader endpoint packet.length localAddress ++ udpHeader endpoint packet.length 0 ++
      packet).length ≤ 2 ^ 16 := by
    simp only [pseudoHeader, udpHeader, List.length_append, List.length_cons, Octets.length_be16, Octets.length_be32]
    omega
  have field : ∀ sum, (udpHeader endpoint packet.length sum ++ packet).drop 6 = Octets.be16 sum ++ packet := by
    intro sum
    simp [udpHeader, Octets.be16]
  have bound : 2 ^ 16 - 1 - residue (checkedTotal endpoint localAddress packet) < 65536 := by omega
  rw [createUdpPkt, field, Octets.read16_be16, calculateSum_eq length, ← checkedTotal, Nat.mod_eq_of_lt bound]

/-- The datagram is what it should be exactly when the words under the UDP
checksum do not add up to a multiple of `2 ^ 16 - 1`: the complement is zero then. -/
theorem carries_iff (short : packet.length ≤ 65507 - 28) :
    Carries (tunnelled endpoint localAddress packet) packet ↔
      ¬ 2 ^ 16 - 1 ∣ checkedTotal endpoint localAddress packet := by
  obtain ⟨ip, length, ipSum, head, protocol, addresses, split⟩ := tunnelled_eq endpoint localAddress packet
  have udp : (tunnelled endpoint localAddress packet).drop 20 = createUdpPkt endpoint packet localAddress := by
    rw [split, List.drop_left' length]
  have field := udp_field endpoint localAddress packet (by omega)
  rw [← udp, List.drop_drop] at field
  have pseudo : pseudoHeaderOf (tunnelled endpoint localAddress packet) =
      pseudoHeader endpoint packet.length localAddress := by
    have front : ∀ n, n ≤ 20 → (tunnelled endpoint localAddress packet).drop n =
        ip.drop n ++ createUdpPkt endpoint packet localAddress := by
      intro n inside
      rw [split, List.drop_append_of_le_length (by omega)]
    have length' : ∀ n, (ip.drop n).length = 20 - n := fun n => by rw [List.length_drop, length]
    have udpLength : ((tunnelled endpoint localAddress packet).drop 24).take 2 = Octets.be16 (packet.length + 8) := by
      rw [show 24 = 20 + 4 from rfl, ← List.drop_drop, udp]
      simp [createUdpPkt, udpHeader, Octets.be16]
    rw [pseudoHeaderOf, udpLength, front 12 (by decide), front 9 (by decide),
      List.take_append_of_le_length (by rw [length']), List.take_append_of_le_length (by rw [length']; decide),
      addresses, protocol]
    rfl
  have sums := udp_sum endpoint localAddress packet (by omega)
  have positive := checkedTotal_pos endpoint localAddress packet
  constructor
  · intro carries divides
    rw [residue_eq_max.mpr ⟨positive, divides⟩, Nat.sub_self] at field
    exact carries.used field
  · intro rest
    refine ⟨?_, ?_, ?_, ?_, drop_tunnelled endpoint localAddress packet⟩
    · rw [split, List.head?_append, head]
      rfl
    · rw [split, List.take_left' length]
      exact ipSum
    · rw [pseudo, udp]
      exact sums
    · rw [field]
      intro zero
      have bound := residue_lt (checkedTotal endpoint localAddress packet)
      have ones : residue (checkedTotal endpoint localAddress packet) = 2 ^ 16 - 1 := by
        have := Option.some.inj zero
        omega
      exact rest (residue_eq_max.mp ones).2

end parts

theorem carries_iff_seven : Carries (tunnelled ⟨0x0a000001, 6000⟩ 0x0a000002 [1, 2, 3, 4, 5, 6, 7])
    [1, 2, 3, 4, 5, 6, 7] :=
  (carries_iff ⟨0x0a000001, 6000⟩ 0x0a000002 [1, 2, 3, 4, 5, 6, 7] (by decide)).mpr (by decide +kernel)

/-- A packet with one symbol of two bytes whose UDP checksum is sent as zero. -/
theorem not_carries : ¬ ∀ (tsi toi : Nat) (fecOti : FecOti) (symbols : List EncodingSymbol)
    (maxEncodingSymbolSize fdtInstanceId : Nat) (packet : List UInt8) (endpoint : Endpoint) (localAddress : Nat),
    AlcPacket.build tsi toi fecOti symbols maxEncodingSymbolSize fdtInstanceId = .ok packet →
    packet.length ≤ 65507 - 28 → Carries (tunnelled endpoint localAddress packet) packet := by
  intro claim
  have built : AlcPacket.build 7 1 { encodingSymbolLength := 2 } [⟨0, 0, .compactNoCode, [0xa9, 0xbf], 2⟩] 100 0 =
      .ok (AlcPacket.header 7 1 { encodingSymbolLength := 2 } 0 ++ [0, 0, 0, 0, 0xa9, 0xbf]) := by decide +kernel
  have used := (claim _ _ _ _ _ _ _ ⟨0x0a000001, 6000⟩ 0x0a000002 built (by decide)).used
  revert used
  decide +kernel

end Libflute

import Libflute.Reporting

/-! No datagram is longer than the network lets through. -/

namespace Libflute

namespace EncodingSymbol

theorem length_encodeTo {symbol : EncodingSymbol} {maxLength : Nat} {written : List UInt8}
    (run : symbol.encodeTo maxLength = .ok written) : written.length ≤ maxLength := by
  unfold encodeTo at run
  split at run
  · next fits =>
    obtain ⟨_, rfl⟩ := readBytes_eq_ok.mp run
    rw [List.length_take]
    exact (Nat.min_le_left _ _).trans fits.2
  · obtain rfl := Except.ok.inj run
    exact Nat.zero_le _

/-- The loop writes no more than there is room for, whatever the symbols are. -/
theorem length_packSymbols {symbols : List EncodingSymbol} {room : Nat} {data : List UInt8}
    (run : packSymbols symbols room = .ok data) : data.length ≤ room := by
  induction symbols generalizing room data with
  | nil =>
    obtain rfl := Except.ok.inj run
    exact Nat.zero_le _
  | cons first rest ih =>
    rw [packSymbols] at run
    split at run
    · obtain ⟨written, write, run⟩ := bind_eq_ok.mp run
      obtain ⟨later, pack, run⟩ := bind_eq_ok.mp run
      obtain rfl := Except.ok.inj run
      have now := length_encodeTo write
      have next := ih pack
      rw [List.length_append]
      omega
    · obtain rfl := Except.ok.inj run
      exact Nat.zero_le _

theorem length_toPayload {symbols : List EncodingSymbol} {room : Nat} {fecOti : FecOti} {payload : List UInt8}
    (run : toPayload symbols room fecOti = .ok payload) : payload.length ≤ room := by
  unfold toPayload at run
  split at run
  · next head =>
    cases symbols with
    | nil => cases run
    | cons first rest =>
      obtain ⟨data, pack, run⟩ := bind_eq_ok.mp run
      obtain rfl := Except.ok.inj run
      have packed := length_packSymbols pack
      rw [List.length_append, List.length_append, Octets.length_be16, Octets.length_be16]
      omega
  · cases run

end EncodingSymbol

namespace AlcPacket

/-- What the constructor allocates for a packet. -/
def maxPacketLength (toi maxEncodingSymbolSize : Nat) : Nat :=
  maxEncodingSymbolSize + (if toi % 2 ^ 16 = 0 then 8 else 3) * 4 + 4

/-- The header and the payload stay inside the buffer of the packet. -/
theorem length_build {tsi toi maxEncodingSymbolSize fdtInstanceId : Nat} {fecOti : FecOti}
    {symbols : List EncodingSymbol} {packet : List UInt8}
    (run : build tsi toi fecOti symbols maxEncodingSymbolSize fdtInstanceId = .ok packet) :
    packet.length ≤ maxPacketLength toi maxEncodingSymbolSize := by
  obtain ⟨payload, write, run⟩ := bind_eq_ok.mp run
  obtain rfl := Except.ok.inj run
  have written := EncodingSymbol.length_toPayload write
  rw [List.length_append, length_header, maxPacketLength]
  split <;> omega

end AlcPacket

namespace Transmitter
variable {env : Env} {t t' : Transmitter} {e : TransmitterEvent} {log out : List TransmitterOutput}

/-- The octets of IPv4 and UDP headers in front of a packet that goes through a tunnel. -/
def tunnelHeaders (tunnelEndpoint : Option Endpoint) : Nat := if tunnelEndpoint.isSome then 20 + 8 else 0

/-- The MTU has room for all the headers of a packet. -/
def MtuHoldsHeaders (t : Transmitter) : Prop := 20 + 8 + 32 + 4 + tunnelHeaders t.tunnelEndpoint ≤ t.mtu

instance (t : Transmitter) : Decidable t.MtuHoldsHeaders := inferInstanceAs (Decidable (_ ≤ _))

/-- The room in a packet is what the headers leave of the MTU, a packet that is
built now stays inside its buffer, and every datagram that was handed to the
socket has, with its own IP and UDP header, at most the length of the MTU. -/
structure WithinMtu (t : Transmitter) (log : List TransmitterOutput) : Prop where
  maxPayload : t.maxPayload + (20 + 8 + 32 + 4 + tunnelHeaders t.tunnelEndpoint) = t.mtu
  buffer : ∀ toi fecOti symbols fdtInstanceId packet,
    AlcPacket.build t.tsi toi fecOti symbols t.maxPayload fdtInstanceId = .ok packet →
    packet.length ≤ AlcPacket.maxPacketLength toi t.maxPayload
  datagrams : ∀ o toi fecOti symbols packet datagram, .handed o toi fecOti symbols packet datagram ∈ log →
    (datagram = packet ∨ datagram.length = packet.length + 20 + 8) ∧ datagram.length + 20 + 8 ≤ t.mtu

theorem mtu_eq (effect : Effect env t e t' out) : t'.mtu = t.mtu := by
  rcases effect.path_cases with same | ⟨new, address, _, rfl⟩
  · exact congrArg Prod.fst same
  · rfl

/-- A tunnel is set and removed without the room in a packet wrapping around. -/
theorem maxPayload_udpTunnelAddress {new : Option Endpoint} {address : Nat}
    (exact : t.maxPayload + (20 + 8 + 32 + 4 + tunnelHeaders t.tunnelEndpoint) = t.mtu) (small : t.mtu < 2 ^ 16)
    (holds : 20 + 8 + 32 + 4 + tunnelHeaders new ≤ t.mtu) :
    (t.udpTunnelAddress new address).maxPayload + (20 + 8 + 32 + 4 + tunnelHeaders new) = t.mtu := by
  simp only [udpTunnelAddress]
  unfold tunnelHeaders at *
  cases before : t.tunnelEndpoint.isSome <;> cases after : new.isSome <;>
    simp only [before, after, Bool.false_eq_true, if_true, if_false, reduceCtorEq] at * <;> omega

theorem maxPayload_create_eq {tsi mtu : Nat} {endpoint : Endpoint} {sourceAddress : Option Nat}
    {tunnelEndpoint : Option Endpoint} {tunnelLocalAddress : Nat} {fdtNamespace : FdtNamespace} {active : Bool}
    (small : mtu < 2 ^ 16) (holds : 20 + 8 + 32 + 4 + tunnelHeaders tunnelEndpoint ≤ mtu) :
    (create tsi mtu endpoint sourceAddress tunnelEndpoint tunnelLocalAddress fdtNamespace active).maxPayload +
      (20 + 8 + 32 + 4 + tunnelHeaders tunnelEndpoint) = mtu := by
  simp only [create]
  unfold tunnelHeaders at *
  cases tunnel : tunnelEndpoint.isSome <;>
    simp only [tunnel, Bool.false_eq_true, if_true, if_false] at * <;> omega

theorem length_datagram (t : Transmitter) (packet : List UInt8) :
    (t.datagram packet = packet ∨ (t.datagram packet).length = packet.length + 20 + 8) ∧
      (t.datagram packet).length = packet.length + tunnelHeaders t.tunnelEndpoint := by
  unfold datagram tunnelHeaders
  split
  · rw [length_tunnelled]
    exact ⟨Or.inr (by omega), by omega⟩
  · exact ⟨Or.inl rfl, rfl⟩

/-- The datagrams of a step have at most the length of the MTU. -/
theorem Effect.datagram_le (effect : Effect env t e t' out) (sound : t.queue.Sound)
    (exact : t.maxPayload + (20 + 8 + 32 + 4 + tunnelHeaders t.tunnelEndpoint) = t.mtu)
    {o toi : Nat} {fecOti : FecOti} {symbols : List EncodingSymbol} {packet datagram : List UInt8}
    (member : TransmitterOutput.handed o toi fecOti symbols packet datagram ∈ out) :
    (datagram = packet ∨ datagram.length = packet.length + 20 + 8) ∧ datagram.length + 20 + 8 ≤ t.mtu := by
  obtain ⟨s, k, f, n, is, hands, _, rfl, rfl, rfl, rfl⟩ := (effect.traffic sound).handed_seen member
  have same : s.maxPayload = t.maxPayload := by rcases is with ⟨rfl, _⟩ | ⟨rfl, _⟩ <;> rfl
  have written := AlcPacket.length_build hands.build
  obtain ⟨shape, length⟩ := t.length_datagram packet
  refine ⟨shape, ?_⟩
  rw [AlcPacket.maxPacketLength, same] at written
  split at written <;> omega

/-- While the MTU has room for the headers, nothing longer is handed over. -/
theorem within_mtu_iff (env : Env) (t : Transmitter) (log : List TransmitterOutput)
    (reach : (transmitter env).Reach (fun t _ _ => t.MtuHoldsHeaders) t log) :
    t.WithinMtu log ↔ t.MtuHoldsHeaders := by
  have invariant : t.queue.Sound ∧ t.mtu < 2 ^ 16 ∧
      (t.MtuHoldsHeaders → t.maxPayload + (20 + 8 + 32 + 4 + tunnelHeaders t.tunnelEndpoint) = t.mtu) ∧
      ∀ o toi fecOti symbols packet datagram, .handed o toi fecOti symbols packet datagram ∈ log →
        (datagram = packet ∨ datagram.length = packet.length + 20 + 8) ∧ datagram.length + 20 + 8 ≤ t.mtu := by
    refine reach.invariant (I := fun t log => t.queue.Sound ∧ t.mtu < 2 ^ 16 ∧
      (t.MtuHoldsHeaders → t.maxPayload + (20 + 8 + 32 + 4 + tunnelHeaders t.tunnelEndpoint) = t.mtu) ∧
      ∀ o toi fecOti symbols packet datagram, .handed o toi fecOti symbols packet datagram ∈ log →
        (datagram = packet ∨ datagram.length = packet.length + 20 + 8) ∧ datagram.length + 20 + 8 ≤ t.mtu) ?_ ?_
    · rintro s ⟨_, mtu, _, _, tunnelEndpoint, _, _, _, small, rfl⟩
      exact ⟨sound_create .., small, maxPayload_create_eq small, by simp⟩
    · rintro s log e s' out ⟨sound, small, exact, datagrams⟩ holds run
      have effect := step_effect sound run
      rw [mtu_eq effect]
      refine ⟨effect.sound sound, small, fun after => ?_, fun o toi fecOti symbols packet datagram member => ?_⟩
      · rcases effect.path_cases with same | ⟨new, address, _, rfl⟩
        · simp only [path, Prod.mk.injEq] at same
          rw [same.2.1, same.2.2]
          exact exact holds
        · exact maxPayload_udpTunnelAddress (exact holds) small after
      · rcases List.mem_append.mp member with old | new
        · exact datagrams o toi fecOti symbols packet datagram old
        · exact effect.datagram_le sound (exact holds) new
  obtain ⟨_, _, exact, datagrams⟩ := invariant
  constructor
  · intro within
    rw [MtuHoldsHeaders, ← within.maxPayload]
    omega
  · intro holds
    exact ⟨exact holds, fun _ _ _ _ _ => AlcPacket.length_build, datagrams⟩

end Transmitter

/-- Whether a datagram is longer than an IP packet of the given MTU can be. -/
def TransmitterOutput.longerThan (mtu : Nat) : TransmitterOutput → Bool
  | .handed _ _ _ _ _ datagram => decide (mtu < datagram.length + 20 + 8)
  | _ => false

/-- A tunnel is set over a network with an MTU of 80. -/
theorem not_within_mtu : ¬ ∀ env t log, (transmitter env).Reach Machine.always t log → t.WithinMtu log := by
  intro claim
  obtain ⟨t, log, reach, long⟩ : ∃ t log, (transmitter (sampleEnv [] [])).Reach Machine.always t log ∧
      (t.mtu == 80 && log.any (TransmitterOutput.longerThan 80)) = true := by
    refine Machine.exists_reach _ (fun _ _ => true) (session 80)
      (sendEvents [97] ++ [.udpTunnelAddress (some ⟨0x0a000001, 6000⟩) 0x0a000002, .sendNextPacket])
      (fun r => r.1.mtu == 80 && r.2.any (TransmitterOutput.longerThan 80))
      (fun _ _ _ _ => trivial) ⟨_, _, _, _, _, _, _, _, by decide, rfl⟩ ?_
    rw [sampleEnv_eq]
    decide +kernel
  obtain ⟨mtu, something⟩ := Bool.and_eq_true_iff.mp long
  obtain ⟨output, member, longer⟩ := List.any_eq_true.mp something
  cases output with
  | handed o toi fecOti symbols packet datagram =>
    have within := ((claim _ t log reach).datagrams o toi fecOti symbols packet datagram member).2
    rw [eq_of_beq mtu] at within
    exact absurd (of_decide_eq_true longer) (not_lt.mpr within)
  | _ => simp [TransmitterOutput.longerThan] at longer

/-- A tunnel that is set and removed over a network with an MTU of 100. -/
theorem within_mtu_iff_tunnel : ∃ t log,
    (transmitter (sampleEnv [] [])).Reach (fun t _ _ => t.MtuHoldsHeaders) t log ∧
    log.any (TransmitterOutput.longerThan 99) = true ∧ (t.WithinMtu log ↔ t.MtuHoldsHeaders) := by
  obtain ⟨t, log, reach, checked⟩ := Machine.exists_reach (M := transmitter (sampleEnv [] []))
    (fun t _ _ => t.MtuHoldsHeaders) (fun t _ => decide t.MtuHoldsHeaders) (session 100)
    (sendEvents [97] ++ [.udpTunnelAddress (some ⟨0x0a000001, 6000⟩) 0x0a000002, .udpTunnelAddress none 0,
      .sendNextPacket])
    (fun r => r.2.any (TransmitterOutput.longerThan 99))
    (fun t _ _ holds => by simpa using holds) ⟨_, _, _, _, _, _, _, _, by decide, rfl⟩ (by rw [sampleEnv_eq]; decide +kernel)
  exact ⟨t, log, reach, checked, Transmitter.within_mtu_iff _ t log reach⟩

end Libflute

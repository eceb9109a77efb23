import Libflute.Carrying
import Libflute.SampleEnv

/-! The transmitter reports as sent what packets have carried. -/

namespace Libflute

/-- The events in which `send_next_packet` runs. -/
def TransmitterEvent.sends : TransmitterEvent → Bool
  | .sendNextPacket => true
  | .activate => true
  | _ => false

/-- A send the socket reports as failed. -/
def TransmitterEvent.fails : TransmitterEvent → Bool
  | .socketCompleted _ ok _ => !ok
  | _ => false

/-- A symbol of the file `o` went to the socket with all of its bytes. -/
def CarriedIn (log : List TransmitterOutput) (o : Nat) (f : File) (key : Nat × Nat) : Prop :=
  ∃ toi symbols packet datagram, TransmitterOutput.handed o toi f.fecOti symbols packet datagram ∈ log ∧
    (datagram = packet ∨ datagram.drop 28 = packet) ∧ f.CarriedBy packet key

namespace Transmitter
variable {env : Env} {t t' : Transmitter} {e : TransmitterEvent} {log out : List TransmitterOutput}

/-- The file `send_next_packet` serves next. -/
def served (t : Transmitter) : Option File := t.nextFile.bind fun e => t.object? e.2

/-- The symbols that `send_next_packet` takes next fit together into a packet. -/
def PacketFits (t : Transmitter) : Prop :=
  ∀ f ∈ t.served, ∀ n ∈ (t.nofSymbols f).toOption, f.FitsTogether t.maxPayload n

instance (t : Transmitter) : Decidable t.PacketFits :=
  inferInstanceAs (Decidable (∀ f ∈ t.served, ∀ n ∈ (t.nofSymbols f).toOption, f.FitsTogether t.maxPayload n))

/-- What is complete, marked as complete or reported as transmitted was carried
by packets. -/
structure ReportsOnlySent (t : Transmitter) (log : List TransmitterOutput) : Prop where
  complete : ∀ o f key, t.object? o = some f → f.Done key → CarriedIn log o f key
  marked : ∀ o symbols, .marked o symbols ∈ log →
    ∃ f, t.object? o = some f ∧ ∀ symbol ∈ symbols, CarriedIn log o f symbol.key
  transmitted : ∀ o toi, .transmitted o toi ∈ log →
    ∃ f, t.object? o = some f ∧ ∀ key, f.Holds key → CarriedIn log o f key

/-- Only `udp_tunnel_address` changes the room in a packet. -/
theorem Effect.path_cases (effect : Effect env t e t' out) : t'.path = t.path ∨
    ∃ new address, e = .udpTunnelAddress new address ∧ t' = t.udpTunnelAddress new address := by
  cases effect with
  | settings _ _ _ _ same => exact same
  | rejected _ _ _ _ same => exact Or.inl same
  | hands is => rcases is with ⟨rfl, _⟩ | ⟨rfl, _⟩ <;> exact Or.inl rfl
  | _ => exact Or.inl rfl

theorem Effect.maxPayload_eq (effect : Effect env t e t' out)
    (other : ∀ new address, e ≠ .udpTunnelAddress new address) : t'.maxPayload = t.maxPayload := by
  rcases effect.path_cases with same | ⟨new, address, rfl, _⟩
  · exact congrArg (fun path => path.2.2) same
  · exact absurd rfl (other new address)

theorem Effect.maxPayload_lt (effect : Effect env t e t' out) (small : t.maxPayload < 2 ^ 32) :
    t'.maxPayload < 2 ^ 32 := by
  rcases effect.path_cases with same | ⟨new, address, _, rfl⟩
  · have maxPayload : t'.maxPayload = t.maxPayload := congrArg (fun path => path.2.2) same
    exact maxPayload ▸ small
  · simp only [udpTunnelAddress]
    split_ifs
    · exact small
    · exact Nat.mod_lt _ (by decide)
    · exact Nat.mod_lt _ (by decide)

theorem maxPayload_create (tsi mtu : Nat) (endpoint : Endpoint) (sourceAddress : Option Nat)
    (tunnelEndpoint : Option Endpoint) (tunnelLocalAddress : Nat) (fdtNamespace : FdtNamespace) (active : Bool) :
    (create tsi mtu endpoint sourceAddress tunnelEndpoint tunnelLocalAddress fdtNamespace active).maxPayload <
      2 ^ 32 := by
  simp only [create]
  split_ifs <;> exact Nat.mod_lt _ (by decide)

theorem datagram_cases (t : Transmitter) (packet : List UInt8) :
    t.datagram packet = packet ∨ (t.datagram packet).drop 28 = packet := by
  unfold datagram
  split
  · exact Or.inr (drop_tunnelled _ _ _)
  · exact Or.inl rfl

/-- Every packet in the log carries the symbols it was made of. -/
def AllCarried (t : Transmitter) (log : List TransmitterOutput) : Prop :=
  ∀ o toi fecOti symbols packet datagram, .handed o toi fecOti symbols packet datagram ∈ log →
    ∃ f, t.object? o = some f ∧ fecOti = f.fecOti ∧ (datagram = packet ∨ datagram.drop 28 = packet) ∧
      ∀ symbol ∈ symbols, f.CarriedBy packet symbol.key

theorem AllCarried.step (all : t.AllCarried log) (sound : t.queue.Sound) (small : t.maxPayload < 2 ^ 32)
    (fits : e.sends = true → t.PacketFits) (effect : Effect env t e t' out) : t'.AllCarried (log ++ out) := by
  have traffic := effect.traffic sound
  intro o toi fecOti symbols packet datagram member
  have now : ∃ f, t.object? o = some f ∧ fecOti = f.fecOti ∧
      (datagram = packet ∨ datagram.drop 28 = packet) ∧ ∀ symbol ∈ symbols, f.CarriedBy packet symbol.key := by
    rcases List.mem_append.mp member with old | new
    · exact all o toi fecOti symbols packet datagram old
    · obtain ⟨s, k, f, n, is, hands, object, rfl, rfl, rfl, rfl⟩ := traffic.handed_seen new
      have same : e.sends = true ∧ t.nextFile = some (k, o) ∧ t.nofSymbols f = .ok n ∧
          t.maxPayload = s.maxPayload := by
        rcases is with ⟨rfl, rfl⟩ | ⟨rfl, rfl⟩ <;> exact ⟨rfl, hands.next, hands.count, rfl⟩
      obtain ⟨sends, next, count, maxPayload⟩ := same
      refine ⟨f, object, rfl, datagram_cases t packet, fun symbol inList => ?_⟩
      obtain ⟨placed, inTaken, rfl⟩ := List.mem_map.mp inList
      have build := hands.build
      rw [← maxPayload] at build
      have room := fits sends f (by rw [served, next]; exact object) _ (by rw [count]; rfl)
      exact (sound.objects o f object).1.carriedBy small room build inTaken
  obtain ⟨f, found, rfl, sent, carried⟩ := now
  obtain ⟨g, later, same⟩ := traffic.later found
  exact ⟨g, later, same.fecOti.symm, sent, by rw [same.carriedBy]; exact carried⟩

theorem AllCarried.carriedIn (all : t.AllCarried log) {o : Nat} {f : File} {key : Nat × Nat}
    (found : t.object? o = some f) (handed : HandedIn log o key) : CarriedIn log o f key := by
  obtain ⟨toi, fecOti, symbols, packet, datagram, member, inSymbols⟩ := handed
  obtain ⟨g, again, rfl, sent, carried⟩ := all o toi fecOti symbols packet datagram member
  obtain rfl : f = g := Option.some.inj (found.symm.trans again)
  obtain ⟨symbol, inList, rfl⟩ := List.mem_map.mp inSymbols
  exact ⟨toi, symbols, packet, datagram, member, sent, carried symbol inList⟩

theorem reach_allCarried {guard : Transmitter → List TransmitterOutput → TransmitterEvent → Prop}
    (fits : ∀ t log e, guard t log e → e.sends = true → t.PacketFits) (reach : (transmitter env).Reach guard t log) :
    t.queue.Sound ∧ t.AllCarried log := by
  have invariant : t.queue.Sound ∧ t.maxPayload < 2 ^ 32 ∧ t.AllCarried log := by
    refine reach.invariant (I := fun t log => t.queue.Sound ∧ t.maxPayload < 2 ^ 32 ∧ t.AllCarried log) ?_ ?_
    · rintro s ⟨_, _, _, _, _, _, _, _, _, rfl⟩
      exact ⟨sound_create .., maxPayload_create .., by simp [AllCarried]⟩
    · rintro s log e s' out ⟨sound, small, all⟩ ok run
      have effect := step_effect sound run
      exact ⟨effect.sound sound, effect.maxPayload_lt small, all.step sound small (fits _ _ _ ok) effect⟩
  exact ⟨invariant.1, invariant.2.2⟩

/-- When every packet has room for the symbols taken for it, only symbols that
packets have carried are reported as sent. -/
theorem reports_only_sent (env : Env) (t : Transmitter) (log : List TransmitterOutput)
    (reach : (transmitter env).Reach (fun t _ e => e.sends = true → t.PacketFits) t log) :
    t.ReportsOnlySent log := by
  have recorded := reach_recorded reach
  obtain ⟨_, all⟩ := reach_allCarried (fun _ _ _ fits => fits) reach
  constructor
  · intro o f key found done
    exact all.carriedIn found (recorded.queued o f key found (Or.inr done))
  · intro o symbols member
    obtain ⟨f, found, handed⟩ := recorded.marked o symbols member
    exact ⟨f, found, fun symbol inMarked => all.carriedIn found (handed symbol inMarked)⟩
  · intro o toi member
    obtain ⟨f, found, _, handed⟩ := recorded.transmitted o toi member
    exact ⟨f, found, fun key held => all.carriedIn found (handed key held)⟩

end Transmitter

/-- Not a packet that gives back a symbol. -/
def TransmitterOutput.carriesNothing : TransmitterOutput → Bool
  | .handed _ _ fecOti _ packet _ =>
    match cutPacket fecOti packet packet.length with
    | .ok cut => cut.isEmpty
    | .error _ => true
  | _ => true

def TransmitterOutput.marksSomething : TransmitterOutput → Bool
  | .marked _ symbols => !symbols.isEmpty
  | _ => false

/-- A session over a network with the given MTU, whose packets go directly to
the multicast group. -/
def session (mtu : Nat) : Transmitter := .create 16 mtu ⟨0xe8000001, 5000⟩ none none 0 .none true

/-- The steps of a call of `send`. -/
def sendEvents (data : List UInt8) : List TransmitterEvent :=
  [.sendData "a.txt" "text/plain" 0 data 0, .continueSend 0, .continueSend 0, .continueSend 0, .continueSend 0]

/-- A packet is sent through a tunnel that was set after its file was made: it
has no room for a symbol, and yet the symbol is marked as complete. -/
theorem tunnel_drops_symbol : ∃ t log, (transmitter (sampleEnv [] [])).Reach (fun _ _ e => e.fails = false) t log ∧
    (log.all TransmitterOutput.carriesNothing && log.any TransmitterOutput.marksSomething) = true := by
  refine Machine.exists_reach _ (fun _ e => !e.fails) (session 164)
    (sendEvents [97] ++ [.udpTunnelAddress (some ⟨0x0a000001, 6000⟩) 0x0a000002, .sendNextPacket,
      .socketCompleted 0 true 0])
    (fun r => r.2.all TransmitterOutput.carriesNothing && r.2.any TransmitterOutput.marksSomething)
    (fun _ _ e may => by simpa using may) ⟨_, _, _, _, _, _, _, _, by decide, rfl⟩ ?_
  rw [sampleEnv_eq]
  decide +kernel

theorem not_reports_only_sent : ¬ ∀ env t log, (transmitter env).Reach (fun _ _ e => e.fails = false) t log →
    t.ReportsOnlySent log := by
  intro claim
  obtain ⟨t, log, reach, found⟩ := tunnel_drops_symbol
  obtain ⟨nothing, something⟩ := Bool.and_eq_true_iff.mp found
  obtain ⟨output, member, marks⟩ := List.any_eq_true.mp something
  cases output with
  | marked o symbols =>
    cases symbols with
    | nil => simp [TransmitterOutput.marksSomething] at marks
    | cons first rest =>
      obtain ⟨f, _, carried⟩ := (claim _ t log reach).marked o _ member
      obtain ⟨toi, symbols, packet, datagram, handed, _, cut, run, symbol, inCut, _⟩ := carried first (by simp)
      have empty := List.all_eq_true.mp nothing _ handed
      simp only [TransmitterOutput.carriesNothing, run, List.isEmpty_iff] at empty
      rw [empty] at inCut
      cases inCut
  | _ => simp [TransmitterOutput.marksSomething] at marks

def TransmitterOutput.isTransmitted : TransmitterOutput → Bool
  | .transmitted _ _ => true
  | _ => false

theorem reports_only_sent_direct : ∃ t log,
    (transmitter (sampleEnv [] [])).Reach (fun t _ e => e.sends = true → t.PacketFits) t log ∧
    log.any TransmitterOutput.isTransmitted = true ∧ t.ReportsOnlySent log := by
  obtain ⟨t, log, reach, checked⟩ := Machine.exists_reach (M := transmitter (sampleEnv [] []))
    (fun t _ e => e.sends = true → t.PacketFits) (fun t e => !e.sends || decide t.PacketFits) (session 1500)
    (.registerCompletionCallback :: sendEvents [97] ++
      [.sendNextPacket, .socketCompleted 0 true 0, .sendNextPacket, .socketCompleted 0 true 0])
    (fun r => r.2.any TransmitterOutput.isTransmitted)
    (fun t _ e may sends => by simpa [sends] using may) ⟨_, _, _, _, _, _, _, _, by decide, rfl⟩ (by rw [sampleEnv_eq]; decide +kernel)
  exact ⟨t, log, reach, checked, Transmitter.reports_only_sent _ t log reach⟩

end Libflute

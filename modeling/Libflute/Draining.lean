import Libflute.AlcPacket
import Libflute.FreshFile

/-! Sending a whole file, one symbol a packet. -/

namespace Libflute

/-- Repeat `get_next_symbols`, the building of a packet and `mark_completed`
until there is nothing left to send. -/
def drain (env : Env) (tsi maxPayload : Nat) : (fuel : Nat) → File → Outcome (List (List UInt8))
  | 0, _ => .error .hangs
  | fuel + 1, f => do
    let (symbols, f) ← f.getNextSymbols maxPayload
    if symbols = [] then pure []
    else do
      let packet ← AlcPacket.build tsi f.entry.toi f.fecOti symbols maxPayload f.fdtInstanceId
      match f.markCompleted env symbols true with
      | (_, .error e) => .error e
      | (f, .ok ()) => do
        let rest ← drain env tsi maxPayload fuel f
        pure (packet :: rest)

namespace File
variable {f g : File} {env : Env} {key : Nat × Nat}

/-- Where a symbol lies in the buffer. -/
def slot? (f : File) (key : Nat × Nat) : Option (Option Nat × Nat) :=
  (f.shape.find? key.1).bind fun block => block.find? key.2

theorem slot?_eq (f : File) (key : Nat × Nat) :
    f.slot? key = (f.symbol? key.1 key.2).map fun symbol => (symbol.data, symbol.length) := by
  rw [slot?, find?_shape, symbol?]
  cases f.sourceBlocks.find? key.1 with
  | none => rfl
  | some block => exact find?_blockShape block key.2

theorem slot?_of_symbol? {symbol : Symbol} (found : f.symbol? key.1 key.2 = some symbol) :
    f.slot? key = some (symbol.data, symbol.length) := by
  rw [slot?_eq, found, Option.map_some]

theorem slot?_congr (same : g.shape = f.shape) : g.slot? key = f.slot? key := by
  rw [slot?, slot?, same]

theorem holds_iff_slot : f.Holds key ↔ ∃ slot, f.slot? key = some slot := by
  simp [Holds, slot?_eq]

theorem Sound.slot_lengths (sound : f.Sound) {data : Option Nat} {length : Nat}
    (slot : f.slot? key = some (data, length)) : 0 < length ∧ length ≤ f.fecOti.encodingSymbolLength := by
  rw [slot?_eq, Option.map_eq_some_iff] at slot
  obtain ⟨symbol, found, same⟩ := slot
  obtain ⟨rfl, rfl⟩ := Prod.mk.inj same
  exact (sound.symbol_spec found).2.2.2

/-- The bytes of a symbol. -/
def slotBytes (f : File) (key : Nat × Nat) : List UInt8 :=
  match f.slot? key with
  | some (some offset, length) => (f.buffer.drop offset).take length
  | _ => []

/-- The packet that carries a symbol on its own. -/
def packet (f : File) (tsi : Nat) (key : Nat × Nat) : List UInt8 :=
  AlcPacket.header tsi f.entry.toi f.fecOti f.fdtInstanceId ++
    (Octets.be16 key.1 ++ Octets.be16 key.2 ++ f.slotBytes key)

theorem packet_congr (entry : g.entry = f.entry) (buffer : g.buffer = f.buffer) (shape : g.shape = f.shape)
    (fdtInstanceId : g.fdtInstanceId = f.fdtInstanceId) : g.packet = f.packet := by
  funext tsi key
  simp only [packet, slotBytes, slot?_congr shape, fecOti, entry, buffer, fdtInstanceId]

theorem Sound.slotBytes_spec (sound : f.Sound) {offset length : Nat}
    (slot : f.slot? key = some (some offset, length)) :
    f.slotBytes key = (f.buffer.drop offset).take length ∧ (f.slotBytes key).length = length ∧
      offset + length ≤ f.buffer.length := by
  obtain ⟨symbol, found, same⟩ := Option.map_eq_some_iff.mp ((slot?_eq f key).symm.trans slot)
  obtain ⟨data, rfl⟩ := Prod.mk.inj same
  obtain ⟨_, _, ⟨start, here, inside⟩, _⟩ := sound.symbol_spec found
  obtain rfl : start = offset := Option.some.inj (here.symm.trans data)
  have bytes : f.slotBytes key = (f.buffer.drop start).take symbol.length := by
    rw [slotBytes, slot]
  refine ⟨bytes, ?_, inside⟩
  rw [bytes, List.length_take, List.length_drop]
  omega

/-- The encoding symbol of an unsent symbol has the bytes of its slot. -/
theorem Sound.encoded_spec (sound : f.Sound) {placed : Placed} (member : placed ∈ f.unsent) :
    (f.encoded placed).Whole ∧ (f.encoded placed).bytes = f.slotBytes placed.key := by
  obtain ⟨found, _, _⟩ := symbol?_of_mem_unsent member
  obtain ⟨_, _, ⟨offset, data, inside⟩, _⟩ := sound.symbol_spec found
  have slot : f.slot? placed.key = some (some offset, placed.symbol.length) := by
    rw [slot?_of_symbol? (show f.symbol? placed.key.1 placed.key.2 = _ from found), data]
  have encodedData : (f.encoded placed).encodedData = f.buffer.drop offset := by
    simp only [encoded, encodingSymbol, data]
  refine ⟨⟨sound.scheme, ?_⟩, ?_⟩
  · rw [encodedData, List.length_drop]
    change placed.symbol.length ≤ _
    omega
  · rw [EncodingSymbol.bytes, encodedData, (sound.slotBytes_spec slot).1]
    rfl

/-- A packet with room for a symbol carries it. -/
theorem Sound.build_packet (sound : f.Sound) {placed : Placed} (member : placed ∈ f.unsent)
    {maxPayload : Nat} (fits : placed.symbol.length ≤ maxPayload) (tsi : Nat) :
    AlcPacket.build tsi f.entry.toi f.fecOti [f.encoded placed] maxPayload f.fdtInstanceId =
      .ok (f.packet tsi placed.key) := by
  obtain ⟨whole, bytes⟩ := sound.encoded_spec member
  have payload : EncodingSymbol.toPayload [f.encoded placed] (maxPayload + 4) f.fecOti =
      .ok (Octets.be16 placed.key.1 ++ Octets.be16 placed.key.2 ++ f.slotBytes placed.key) := by
    rw [EncodingSymbol.toPayload_of_fits sound.scheme (by simpa using whole)]
    · simp only [List.flatMap_cons, List.flatMap_nil, List.append_nil, bytes]
      rfl
    · simpa [encoded, encodingSymbol] using fits
  rw [AlcPacket.build, payload]
  rfl

theorem Sound.mem_unsent_keys (sound : f.Sound) :
    key ∈ f.unsent.map Placed.key ↔ f.Holds key ∧ ¬ f.Done key ∧ ¬ f.Queued key := by
  constructor
  · intro member
    obtain ⟨placed, inList, rfl⟩ := List.mem_map.mp member
    obtain ⟨found, incomplete, unqueued⟩ := symbol?_of_mem_unsent inList
    refine ⟨⟨_, found⟩, ?_, ?_⟩
    all_goals
      rintro ⟨other, again, flag⟩
      obtain rfl : placed.symbol = other := Option.some.inj (found.symm.trans again)
      simp_all
  · rintro ⟨⟨symbol, found⟩, pending, idle⟩
    obtain ⟨block, inFile, inBlock⟩ := symbol?_eq_some.mp found
    have incomplete : symbol.complete = false :=
      Bool.eq_false_iff.mpr fun complete => pending ⟨symbol, found, complete⟩
    have unqueued : symbol.queued = false :=
      Bool.eq_false_iff.mpr fun queued => idle ⟨symbol, found, queued⟩
    have blockOpen : block.complete = false := by
      rw [sound.blockComplete _ _ inFile, Bool.eq_false_iff]
      intro every
      have complete := SortedMap.all_eq_true.mp every _ _ inBlock
      rw [incomplete] at complete
      exact absurd complete (by simp)
    exact List.mem_map.mpr ⟨⟨key.1, key.2, symbol⟩,
      mem_unsent.mpr ⟨block, inFile, blockOpen, inBlock, by simp [Symbol.unsent, incomplete, unqueued]⟩, rfl⟩

/-- A file between two packets: nothing is queued, and a digest that is checked holds. -/
structure Idle (env : Env) (f : File) : Prop where
  sound : f.Sound
  digest : f.DigestHolds env
  unqueued : ∀ key, ¬ f.Queued key

/-- The same file later, with one more symbol complete. -/
structure Sent (env : Env) (f h : File) (key : Nat × Nat) : Prop where
  idle : Idle env h
  entry : h.entry = f.entry
  shape : h.shape = f.shape
  packet : h.packet = f.packet
  holds : ∀ k, h.Holds k ↔ f.Holds k
  done : ∀ k, h.Done k ↔ f.Done k ∨ k = key

theorem Idle.mem_unsent_keys (idle : Idle env f) :
    key ∈ f.unsent.map Placed.key ↔ f.Holds key ∧ ¬ f.Done key := by
  rw [idle.sound.mem_unsent_keys]
  simp only [idle.unqueued, not_false_eq_true, and_true]

/-- Taking the first unsent symbol and marking it. -/
theorem Idle.send_one (idle : Idle env f) {placed : Placed} (first : f.unsent.take 1 = [placed]) :
    ∃ h, (f.queue [placed.key]).markCompleted env [f.encoded placed] true = (h, .ok ()) ∧
      Sent env f h placed.key := by
  have member : placed ∈ f.unsent := List.mem_of_mem_take (by rw [first]; exact List.mem_singleton_self placed)
  have taken := idle.sound.taken 1
  rw [first, List.map_singleton, List.map_singleton] at taken
  obtain ⟨found, _, _⟩ := symbol?_of_mem_unsent member
  obtain ⟨h, run, marked⟩ := taken.sound.markCompleted env [f.encoded placed]
    fun symbol isPlaced => by
      obtain rfl := List.mem_singleton.mp isPlaced
      exact (taken.holds _).mpr ⟨_, found⟩
  have keys : [f.encoded placed].map EncodingSymbol.key = [placed.key] := rfl
  rw [keys] at marked
  have digest : (f.queue [placed.key]).DigestHolds env := by
    rw [DigestHolds, taken.entry, taken.buffer]
    exact idle.digest
  refine ⟨h, run, ⟨marked.sound, marked.digestHolds.mpr digest, fun k queued => ?_⟩,
    marked.entry.trans taken.entry, marked.shape.trans taken.shape, ?_,
    fun k => (marked.holds k).trans (taken.holds k), fun k => ?_⟩
  · obtain ⟨was, other⟩ := (marked.queued k).mp queued
    rcases (taken.queued k).mp was with before | now
    · exact idle.unqueued k before
    · exact other now
  · exact (packet_congr marked.entry marked.buffer marked.shape marked.fdtInstanceId).trans
      (packet_congr taken.entry taken.buffer taken.shape taken.fdtInstanceId)
  · rw [← List.mem_singleton, ← taken.done]
    exact ⟨marked.done k, marked.advance digest k⟩

theorem Sent.mem_pending {h : File} (sent : Sent env f h key) (here : f.Holds key ∧ ¬ f.Done key) {k : Nat × Nat} :
    k = key ∨ (h.Holds k ∧ ¬ h.Done k) ↔ f.Holds k ∧ ¬ f.Done k := by
  rw [sent.holds, sent.done]
  constructor
  · rintro (rfl | ⟨holds, pending⟩)
    · exact here
    · exact ⟨holds, fun done => pending (Or.inl done)⟩
  · rintro ⟨holds, pending⟩
    by_cases same : k = key
    · exact Or.inl same
    · exact Or.inr ⟨holds, fun done => done.elim pending same⟩

/-- One symbol fewer is left to send. -/
theorem Sent.unsent_length {h : File} (sent : Sent env f h key) (idle : Idle env f)
    (here : key ∈ f.unsent.map Placed.key) : h.unsent.length + 1 = f.unsent.length := by
  have pending := idle.mem_unsent_keys.mp here
  have unlisted : key ∉ h.unsent.map Placed.key := fun listed =>
    (sent.idle.mem_unsent_keys.mp listed).2 ((sent.done _).mpr (Or.inr rfl))
  have perm : (key :: h.unsent.map Placed.key).Perm (f.unsent.map Placed.key) := by
    rw [List.perm_ext_iff_of_nodup (List.nodup_cons.mpr ⟨unlisted, nodup_unsent h⟩) (nodup_unsent f)]
    intro k
    rw [List.mem_cons, sent.idle.mem_unsent_keys, idle.mem_unsent_keys, sent.mem_pending pending]
  simpa using perm.length_eq

/-- Draining a file sends each symbol that is not complete in a packet of its own. -/
theorem Idle.drain (idle : Idle env f) {maxPayload : Nat}
    (one : ceilInt (subSize maxPayload 4) f.fecOti.encodingSymbolLength = .ok 1)
    (short : ∀ key offset length, f.slot? key = some (offset, length) → length ≤ maxPayload) (tsi : Nat) :
    ∃ keys : List (Nat × Nat),
      drain env tsi maxPayload (f.unsent.length + 1) f = .ok (keys.map (f.packet tsi)) ∧
      ∀ key, key ∈ keys ↔ f.Holds key ∧ ¬ f.Done key := by
  generalize count : f.unsent.length = k
  induction k generalizing f with
  | zero =>
    have nothing : f.unsent = [] := List.eq_nil_of_length_eq_zero count
    refine ⟨[], ?_, fun key => ?_⟩
    · rw [Libflute.drain, getNextSymbols_eq, one, ok_bind, ok_bind, nothing]
      rfl
    · rw [← idle.mem_unsent_keys, nothing]
      rfl
  | succ k ih =>
    obtain ⟨placed, rest, list⟩ := List.exists_cons_of_length_eq_add_one count
    have member : placed ∈ f.unsent := by simp [list]
    have first : f.unsent.take 1 = [placed] := by simp [list]
    obtain ⟨found, _, _⟩ := symbol?_of_mem_unsent member
    have fits : placed.symbol.length ≤ maxPayload :=
      short placed.key _ _ (slot?_of_symbol? (show f.symbol? placed.key.1 placed.key.2 = _ from found))
    obtain ⟨h, run, sent⟩ := idle.send_one first
    have listed : placed.key ∈ f.unsent.map Placed.key := List.mem_map_of_mem member
    obtain ⟨keys, later, all⟩ := ih sent.idle
      (by rw [fecOti, sent.entry]; exact one)
      (fun key offset length slot => short key offset length (by rwa [slot?_congr sent.shape] at slot))
      (by have fewer := sent.unsent_length idle listed; omega)
    refine ⟨placed.key :: keys, ?_, fun key => ?_⟩
    · have build := idle.sound.build_packet member fits tsi
      rw [Libflute.drain, getNextSymbols_eq, one, ok_bind, ok_bind, first]
      simp only [List.map_singleton, List.cons_ne_nil, if_false]
      rw [show AlcPacket.build tsi (f.queue [placed.key]).entry.toi (f.queue [placed.key]).fecOti
        [f.encoded placed] maxPayload (f.queue [placed.key]).fdtInstanceId = _ from build, ok_bind, run]
      simp only [later, ok_bind, sent.packet]
      rfl
    · rw [List.mem_cons, all, sent.mem_pending (idle.mem_unsent_keys.mp listed)]

end File
end Libflute

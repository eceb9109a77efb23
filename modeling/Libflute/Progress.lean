import Libflute.Reporting

/-! The transmitter goes on sending while there is something to send. -/

namespace Libflute

/-- Content with at least one symbol, and with its digest where one is given. -/
def TransmitterEvent.Fills (env : Env) : TransmitterEvent → Prop
  | .sendData _ _ _ data _ => data ≠ []
  | .sendDescription fd => fd.entry.contentEncoding = "" →
    fd.data ≠ [] ∧ (fd.entry.contentMd5 = "" ∨ fd.entry.contentMd5 = base64Encode (env.md5 fd.data))
  | _ => True

instance (env : Env) : (e : TransmitterEvent) → Decidable (e.Fills env)
  | .sendData _ _ _ data _ => inferInstanceAs (Decidable (data ≠ []))
  | .sendDescription fd => inferInstanceAs (Decidable (fd.entry.contentEncoding = "" →
    fd.data ≠ [] ∧ (fd.entry.contentMd5 = "" ∨ fd.entry.contentMd5 = base64Encode (env.md5 fd.data))))
  | .continueSend _ => isTrue trivial
  | .fdtSendTick _ => isTrue trivial
  | .sendNextPacket => isTrue trivial
  | .socketCompleted .. => isTrue trivial
  | .udpTunnelAddress .. => isTrue trivial
  | .registerCompletionCallback => isTrue trivial
  | .activate => isTrue trivial
  | .deactivate => isTrue trivial

/-- A payload size with room for a byte behind the block number and the symbol ID. -/
def HasRoom (maxPayload : Nat) : Prop := 4 < maxPayload ∧ maxPayload ≤ 2 ^ 24

instance (maxPayload : Nat) : Decidable (HasRoom maxPayload) := inferInstanceAs (Decidable (_ ∧ _))

/-- The symbols of files that an output hands to the socket. -/
def TransmitterOutput.keys : TransmitterOutput → List (Nat × (Nat × Nat))
  | .handed o _ _ symbols _ _ => symbols.map fun symbol => (o, symbol.key)
  | _ => []

theorem mem_keys_iff {log : List TransmitterOutput} {o : Nat} {key : Nat × Nat} :
    (o, key) ∈ log.flatMap TransmitterOutput.keys ↔ HandedIn log o key := by
  simp only [List.mem_flatMap, HandedIn]
  constructor
  · rintro ⟨output, member, inKeys⟩
    cases output with
    | handed p toi fecOti symbols packet datagram =>
      obtain ⟨symbol, inSymbols, same⟩ := List.mem_map.mp inKeys
      obtain ⟨rfl, rfl⟩ := Prod.mk.inj same
      exact ⟨toi, fecOti, symbols, packet, datagram, member, List.mem_map_of_mem inSymbols⟩
    | _ => cases inKeys
  · rintro ⟨toi, fecOti, symbols, packet, datagram, member, inSymbols⟩
    obtain ⟨symbol, inList, rfl⟩ := List.mem_map.mp inSymbols
    exact ⟨_, member, List.mem_map_of_mem inList⟩

theorem keys_of_silent {out : List TransmitterOutput} (silent : ∀ output ∈ out, output.handing = none) :
    out.flatMap TransmitterOutput.keys = [] := by
  rw [List.flatMap_eq_nil_iff]
  intro output member
  cases output with
  | handed => cases silent _ member
  | _ => rfl

namespace Transmitter
variable {env : Env} {t t' : Transmitter} {e : TransmitterEvent} {log out : List TransmitterOutput} {o : Nat}
  {f g : File}

/-- The payload size behind an event. -/
def roomAfter (t : Transmitter) : TransmitterEvent → Nat
  | .udpTunnelAddress new address => (t.udpTunnelAddress new address).maxPayload
  | _ => t.maxPayload

/-- A step that leaves nothing stuck: sends succeed, contents have symbols and
the digests they are given, and payloads have room. -/
structure Supplied (env : Env) (t : Transmitter) (e : TransmitterEvent) : Prop where
  succeeds : e.fails = false
  fills : e.Fills env
  room : HasRoom t.maxPayload
  roomAfter : HasRoom (t.roomAfter e)

instance (env : Env) (t : Transmitter) (e : TransmitterEvent) : Decidable (t.Supplied env e) :=
  decidable_of_iff (e.fails = false ∧ e.Fills env ∧ HasRoom t.maxPayload ∧ HasRoom (t.roomAfter e))
    ⟨fun ⟨succeeds, fills, room, after⟩ => ⟨succeeds, fills, room, after⟩,
      fun ⟨succeeds, fills, room, after⟩ => ⟨succeeds, fills, room, after⟩⟩

/-- With files in the queue and no send outstanding, the next `send_next_packet`
hands a packet to the socket. -/
def KeepsSending (env : Env) (t : Transmitter) : Prop :=
  t.active = true → t.files.entries ≠ [] → t.socket = [] →
    ∃ t' o toi fecOti symbols packet datagram, symbols ≠ [] ∧ (transmitter env).step t .sendNextPacket =
      some (t', [.handed o toi fecOti symbols packet datagram])

/-- What is queued in a file is in flight. -/
def Tracked (t : Transmitter) : Prop :=
  ∀ o f key, t.object? o = some f → f.Queued key →
    ∃ sent ∈ t.socket, sent.object = o ∧ key ∈ sent.symbols.map EncodingSymbol.key

/-- Every file has a symbol, and a digest that is checked holds. -/
def Filled (env : Env) (t : Transmitter) : Prop :=
  ∀ o f, t.object? o = some f → (∃ key, f.Holds key) ∧ f.DigestHolds env

/-- What was handed over is queued or complete. -/
def Kept (t : Transmitter) (log : List TransmitterOutput) : Prop :=
  ∀ o f key, t.object? o = some f → HandedIn log o key → f.Queued key ∨ f.Done key

theorem Tracked.step (tracked : t.Tracked) (traffic : Traffic env t e t' out) (succeeds : e.fails = false) :
    t'.Tracked := by
  intro o g key found queued
  change t'.objects[o]? = some g at found
  cases traffic with
  | made _ _ fresh objects socket =>
    rw [socket]
    rw [objects] at found
    rcases getElem?_append_cases found with old | ⟨_, member⟩
    · exact tracked o g key old queued
    · exact absurd queued ((fresh g member).new.idle key)
  | @handed _ _ s k p f n packet _ _ object taken objects socket =>
    rw [socket]
    rw [objects, getElem?_set object] at found
    split at found
    · next same =>
      subst same
      obtain rfl := Option.some.inj found
      rcases (taken.queued key).mp queued with old | new
      · obtain ⟨sent, member, rest⟩ := tracked o f key object old
        exact ⟨sent, List.mem_append_left _ member, rest⟩
      · exact ⟨_, List.mem_append_right _ (List.mem_singleton_self _), rfl, new⟩
    · obtain ⟨sent, member, rest⟩ := tracked o g key found queued
      exact ⟨sent, List.mem_append_left _ member, rest⟩
  | failed => cases succeeds
  | @marked index now _ sent f h _ news here object marked fresh objects socket =>
    rw [socket]
    obtain ⟨inside, is⟩ := List.getElem?_eq_some_iff.mp here
    have rest : ∀ other ∈ t.socket, other ≠ sent → other ∈ t.socket.eraseIdx index := by
      intro other member different
      rw [← (List.getElem_cons_eraseIdx_perm inside).mem_iff, is, List.mem_cons] at member
      exact member.resolve_left different
    rw [objects] at found
    rcases getElem?_append_cases found with old | ⟨_, member⟩
    · rw [getElem?_set object] at old
      split at old
      · next same =>
        subst same
        obtain rfl := Option.some.inj old
        obtain ⟨before, other⟩ := (marked.queued key).mp queued
        obtain ⟨later, member, same, inLater⟩ := tracked _ f key object before
        exact ⟨later, rest later member fun equal => other (equal ▸ inLater), same, inLater⟩
      · next other =>
        obtain ⟨later, member, same, inLater⟩ := tracked o g key old queued
        exact ⟨later, rest later member fun equal => other (by rw [← same, equal]), same, inLater⟩
    · exact absurd queued ((fresh g member).new.idle key)

theorem MadeBy.filled (made : MadeBy env t f e) (fills : e.Fills env) :
    (∃ key, f.Holds key) ∧ f.DigestHolds env := by
  cases made with
  | fdt table isFdt => exact ⟨isFdt.new.nonempty isFdt.nonempty, isFdt.digest⟩
  | data run =>
    obtain ⟨new, digest, _, _, _, entry⟩ := File.ofData_new run
    refine ⟨new.nonempty ?_, digest⟩
    rw [File.fecOti, entry]
    exact List.length_pos_of_ne_nil fills
  | @description fd run =>
    obtain ⟨new, _, _, _, md5, encoding, plain, encoded⟩ := File.ofDescription_new run
    by_cases unencoded : fd.entry.contentEncoding = ""
    · obtain ⟨some, right⟩ := fills unencoded
      obtain ⟨buffer, entry⟩ := plain unencoded
      refine ⟨new.nonempty ?_, fun _ stated => ?_⟩
      · rw [File.fecOti, entry]
        exact List.length_pos_of_ne_nil some
      · rw [md5] at stated ⊢
        rw [buffer]
        exact right.resolve_left stated
    · refine ⟨new.nonempty (encoded unencoded), fun none _ => absurd ?_ unencoded⟩
      rw [← none, encoding]
      rfl

theorem Filled.step (filled : t.Filled env) (traffic : Traffic env t e t' out) (fills : e.Fills env) :
    t'.Filled env := by
  intro o g found
  have kept : ∀ f, t.object? o = some f → (∃ key, g.Holds key) ∧ g.DigestHolds env := by
    intro f before
    obtain ⟨h, now, later⟩ := traffic.later before
    obtain rfl : g = h := Option.some.inj (found.symm.trans now)
    obtain ⟨⟨key, holds⟩, digest⟩ := filled o f before
    refine ⟨⟨key, later.holds_iff.mpr holds⟩, ?_⟩
    rw [File.DigestHolds, later.entry, later.buffer]
    exact digest
  cases traffic.object found with
  | same before => exact kept _ before
  | made _ made => exact made.filled fills
  | taken before => exact kept _ before
  | marked _ _ before => exact kept _ before

theorem Kept.step (kept : t.Kept log) (recorded : t.Recorded log) (filled : t.Filled env)
    (traffic : Traffic env t e t' out) : t'.Kept (log ++ out) := by
  intro o g key found handed
  have cases : HandedIn log o key ∨ ∃ output ∈ out, output.handing = some o := by
    obtain ⟨toi, fecOti, symbols, packet, datagram, member, inSymbols⟩ := handed
    rcases List.mem_append.mp member with old | new
    · exact Or.inl ⟨toi, fecOti, symbols, packet, datagram, old, inSymbols⟩
    · exact Or.inr ⟨_, new, rfl⟩
  cases traffic.object found with
  | same before silent =>
    rcases cases with old | ⟨output, member, hands⟩
    · exact kept o g key before old
    · exact absurd hands (silent output member)
  | made none =>
    rcases cases with ⟨_, _, _, _, _, member, _⟩ | ⟨output, member, hands⟩
    · obtain ⟨f, before, _⟩ := recorded.handed _ _ _ _ _ _ member
      rw [none] at before
      cases before
    · cases output with
      | handed p =>
        obtain rfl : p = o := Option.some.inj hands
        obtain ⟨_, _, f, _, _, _, before, _⟩ := traffic.handed_seen member
        rw [none] at before
        cases before
      | _ => cases hands
  | taken before taken =>
    obtain ⟨toi, fecOti, symbols, packet, datagram, member, inSymbols⟩ := handed
    rcases List.mem_append.mp member with old | new
    · have known := kept o _ key before ⟨toi, fecOti, symbols, packet, datagram, old, inSymbols⟩
      exact known.imp (fun queued => (taken.queued key).mpr (Or.inl queued)) (taken.done key).mpr
    · simp only [List.mem_singleton, TransmitterOutput.handed.injEq] at new
      obtain ⟨_, _, _, rfl, _⟩ := new
      exact Or.inl ((taken.queued key).mpr (Or.inr inSymbols))
  | @marked index sent now f _ here same before marked silent =>
    rcases cases with old | ⟨output, member, hands⟩
    swap
    · rw [silent output member] at hands
      cases hands
    rcases kept o f key before old with queued | done
    · by_cases inSent : key ∈ sent.symbols.map EncodingSymbol.key
      · exact Or.inr (marked.advance (filled o f before).2 key (Or.inr inSent))
      · exact Or.inl ((marked.queued key).mpr ⟨queued, inSent⟩)
    · exact Or.inr (marked.advance (filled o f before).2 key (Or.inl done))

/-- No symbol of a file is handed over twice. -/
theorem Kept.once (kept : t.Kept log) (once : (log.flatMap TransmitterOutput.keys).Nodup)
    (traffic : Traffic env t e t' out) : ((log ++ out).flatMap TransmitterOutput.keys).Nodup := by
  have quiet : (∀ output ∈ out, output.handing = none) →
      ((log ++ out).flatMap TransmitterOutput.keys).Nodup := by
    intro silent
    rw [List.flatMap_append, keys_of_silent silent, List.append_nil]
    exact once
  cases traffic with
  | made _ _ _ _ _ silent => exact quiet silent
  | @handed _ _ s k o f n packet _ _ object taken =>
    have keys : [TransmitterOutput.handed o f.entry.toi f.fecOti ((f.unsent.take n).map f.encoded) packet
        (t.datagram packet)].flatMap TransmitterOutput.keys =
        (((f.unsent.take n).map f.encoded).map EncodingSymbol.key).map (Prod.mk o) := by
      simp [TransmitterOutput.keys, Function.comp_def]
    rw [List.flatMap_append, keys, List.nodup_append]
    refine ⟨once, taken.distinct.map (Prod.mk_right_injective o), ?_⟩
    rintro x old _ new rfl
    obtain ⟨key, inTaken, rfl⟩ := List.mem_map.mp new
    obtain ⟨symbol, member, rfl⟩ := List.mem_map.mp inTaken
    obtain ⟨placed, unsent, rfl⟩ := taken.fresh symbol member
    obtain ⟨found, incomplete, unqueued⟩ := File.symbol?_of_mem_unsent unsent
    rcases kept o f _ object (mem_keys_iff.mp old) with ⟨other, again, flag⟩ | ⟨other, again, flag⟩
    · obtain rfl : placed.symbol = other := Option.some.inj (found.symm.trans again)
      rw [unqueued] at flag
      cases flag
    · obtain rfl : placed.symbol = other := Option.some.inj (found.symm.trans again)
      rw [incomplete] at flag
      cases flag
  | failed => exact quiet (by simp)
  | marked _ _ _ _ _ _ _ silent => exact quiet (by simpa [TransmitterOutput.handing] using silent)

theorem step_room (supplied : t.Supplied env e) (effect : Effect env t e t' out)
    (run : t.step env e = some (t', out)) : HasRoom t'.maxPayload := by
  have after := supplied.roomAfter
  cases e with
  | udpTunnelAddress new address =>
    obtain ⟨rfl, _⟩ := Prod.mk.inj (Option.some.inj run)
    exact after
  | _ =>
    have same : t'.maxPayload = t.maxPayload := effect.maxPayload_eq (by simp)
    rw [same]
    exact supplied.room

theorem step_of_hands {k n : Nat} {packet : List UInt8} (hands : t.Hands k o f n packet) :
    (transmitter env).step t .sendNextPacket = some ({ t with
        objects := t.objects.set o (f.queue ((f.unsent.take n).map Placed.key))
        socket := t.socket ++ [⟨o, (f.unsent.take n).map f.encoded⟩] },
      [.handed o f.entry.toi f.fecOti ((f.unsent.take n).map f.encoded) packet (t.datagram packet)]) := by
  simp only [transmitter, step, perform, hands.run]

theorem hands_of_tracked (sound : t.queue.Sound) (tracked : t.Tracked) (filled : t.Filled env)
    (room : HasRoom t.maxPayload) : t.KeepsSending env := by
  intro active some idle
  obtain ⟨⟨k, o⟩, rest, list⟩ := List.exists_cons_of_ne_nil some
  have listed : t.files.find? k = Option.some o := SortedMap.mem_entries.mp (by simp [list])
  obtain ⟨f, found, _, incomplete⟩ := sound.files k o listed
  have next : t.nextFile = Option.some (k, o) := by
    rw [nextFile, list, List.find?_cons_of_pos]
    simp only [show t.object? o = Option.some f from found, Option.any_some, incomplete, Bool.not_false]
  obtain ⟨⟨key, holds⟩, _⟩ := filled o f found
  have fileSound := (sound.objects o f found).1
  have unsent : f.unsent ≠ [] := by
    refine fileSound.unsent_ne_nil incomplete holds fun key queued => ?_
    obtain ⟨sent, member, _⟩ := tracked o f key found queued
    rw [idle] at member
    cases member
  obtain ⟨_, here⟩ := id holds
  obtain ⟨_, _, _, positive, short⟩ := fileSound.symbol_spec here
  obtain ⟨more, less⟩ := room
  have count : ∃ n, t.nofSymbols f = .ok n ∧ 0 < n := by
    have size : subSize t.maxPayload 4 = t.maxPayload - 4 := subSize_of_le (by omega) (by omega)
    have symbolLength : 0 < f.fecOti.encodingSymbolLength := positive.trans_le short
    have exact := SinglePrecision.ceilDivide_of_le symbolLength (show t.maxPayload - 4 ≤ 2 ^ 24 by omega)
    refine ⟨(t.maxPayload - 4) ⌈/⌉ f.fecOti.encodingSymbolLength, ?_, ?_⟩
    · refine ceilInt_eq_ok.mpr ⟨symbolLength, ?_, by rw [size, exact]⟩
      rw [size, exact]
      refine lt_of_le_of_lt (b := 2 ^ 24) ?_ (by decide)
      rw [ceilDiv_le_iff_le_mul symbolLength]
      exact (show t.maxPayload - 4 ≤ 2 ^ 24 by omega).trans (Nat.le_mul_of_pos_left _ symbolLength)
    · rw [lt_ceilDiv_iff symbolLength]
      omega
  obtain ⟨n, count, positive⟩ := count
  have takes : f.unsent.take n ≠ [] := by
    rw [Ne, List.take_eq_nil_iff]
    rintro (none | none)
    · omega
    · exact unsent none
  rcases sendNextPacket_cases t fun p h there => (sound.objects p h there).1 with
    ⟨_, inactive | none | ⟨_, _, _, _, again, there, sameCount, nothing⟩⟩ | ⟨_, p, h, m, packet, hands⟩ |
      ⟨_, _, _, again, there, undefined, _⟩
  · rw [active] at inactive
    cases inactive
  · rw [next] at none
    cases none
  · rw [next] at again
    obtain ⟨_, rfl⟩ := Prod.mk.inj (Option.some.inj again)
    rw [show t.object? o = Option.some f from found] at there
    obtain rfl := Option.some.inj there
    rw [count] at sameCount
    obtain rfl := Except.ok.inj sameCount
    exact absurd nothing takes
  · exact ⟨_, _, _, _, _, _, _, by simpa using hands.some, step_of_hands hands⟩
  · rw [next] at again
    obtain ⟨_, rfl⟩ := Prod.mk.inj (Option.some.inj again)
    rw [show t.object? o = Option.some f from found] at there
    obtain rfl := Option.some.inj there
    rw [count] at undefined
    cases undefined

/-- What the steps of a run in which nothing gets stuck keep. -/
theorem reach_supplied (reach : (transmitter env).Reach (fun t _ e => t.Supplied env e) t log) :
    (t.queue.Sound ∧ t.Filled env) ∧ t.KeepsSending env ∧ (log.flatMap TransmitterOutput.keys).Nodup := by
  have invariant : t.queue.Sound ∧ t.Recorded log ∧ t.Tracked ∧ t.Filled env ∧ t.Kept log ∧
      (log.flatMap TransmitterOutput.keys).Nodup ∧ (t.files.entries = [] ∨ HasRoom t.maxPayload) := by
    refine reach.invariant (I := fun t log => t.queue.Sound ∧ t.Recorded log ∧ t.Tracked ∧ t.Filled env ∧
      t.Kept log ∧ (log.flatMap TransmitterOutput.keys).Nodup ∧
      (t.files.entries = [] ∨ HasRoom t.maxPayload)) ?_ ?_
    · rintro s ⟨_, _, _, _, _, _, _, _, _, rfl⟩
      refine ⟨sound_create .., recorded_start rfl rfl, ?_, ?_, ?_, List.nodup_nil, Or.inl rfl⟩
      · simp [Tracked, create, object?]
      · simp [Filled, create, object?]
      · simp [Kept, create, object?]
    · rintro s log e s' out ⟨sound, recorded, tracked, filled, kept, once, _⟩ supplied run
      have effect := step_effect sound run
      have traffic := effect.traffic sound
      exact ⟨effect.sound sound, recorded.step sound effect, tracked.step traffic supplied.succeeds,
        filled.step traffic supplied.fills, kept.step recorded filled traffic, kept.once once traffic,
        Or.inr (step_room supplied effect run)⟩
  obtain ⟨sound, _, tracked, filled, _, once, room⟩ := invariant
  refine ⟨⟨sound, filled⟩, fun active some => ?_, once⟩
  exact hands_of_tracked sound tracked filled (room.resolve_left some) active some

end Transmitter
end Libflute

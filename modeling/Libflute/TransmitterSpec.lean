import Libflute.FreshFile
import Libflute.Transmitter

/-! What each function of the transmitter can do. -/

namespace Libflute
namespace Transmitter
variable {env : Env} {t : Transmitter}

theorem object?_lt {o : Nat} {f : File} (found : t.object? o = some f) : o < t.objects.length :=
  (List.getElem?_eq_some_iff.mp found).1

/-- An FDT file for a table. -/
structure FdtFile (env : Env) (t : Transmitter) (table : FileDeliveryTable) (f : File) : Prop where
  new : f.New
  digest : f.DigestHolds env
  toi : f.entry.toi = 0
  instanceId : f.fdtInstanceId = table.instanceId % 2 ^ 16
  symbolLength : f.fecOti.encodingSymbolLength = t.fecOti.encodingSymbolLength
  buffer : f.buffer = table.print env
  nonempty : 0 < f.fecOti.transferLength

/-- `send_fdt` up to its critical section lists nothing, fails, or makes a file. -/
theorem buildFdt_cases (env : Env) (t : Transmitter) (now : Nat) :
    (t.fdt.fileEntries = [] ∧ t.buildFdt env now = { state := t, ending := .ok none }) ∨
    ∃ table : FileDeliveryTable, t.fdt.fileEntries ≠ [] ∧ table.Reissues t.fdt ∧
      ((∃ e, t.buildFdt env now = { state := { t with fdt := table }, ending := .error e }) ∨
      ∃ f, FdtFile env t table f ∧ t.buildFdt env now = {
        state := { t with fdt := table, objects := t.objects ++ [f] }
        seen := [.built t.objects.length table f]
        ending := .ok (some t.objects.length) }) := by
  unfold buildFdt
  split_ifs with none
  · exact Or.inl ⟨none, rfl⟩
  · refine Or.inr ⟨t.fdt.setExpires (now + fdtRepeatInterval * 2), none, ⟨_, rfl⟩, ?_⟩
    simp only
    split
    · exact Or.inl ⟨_, rfl⟩
    · next f made =>
      obtain ⟨new, digest, buffer, _, _, entry⟩ := File.ofData_new made
      refine Or.inr ⟨f.setFdtInstanceId t.fdt.instanceId, ?_, rfl⟩
      have length : f.fecOti.transferLength = (FileDeliveryTable.print env
          (t.fdt.setExpires (now + fdtRepeatInterval * 2))).length := by
        rw [File.fecOti, entry]
      exact {
        new := ⟨⟨new.sound.scheme, new.sound.plain, new.sound.whole, new.sound.digest, new.sound.shape,
          new.sound.exclusive, new.sound.blockComplete, new.sound.complete_iff⟩, new.incomplete, new.idle,
          new.undone, new.nonempty⟩
        digest := digest
        toi := by
          change f.entry.toi = 0
          rw [entry]
        instanceId := rfl
        symbolLength := by
          change f.entry.fecOti.encodingSymbolLength = _
          rw [entry]
        buffer := buffer
        nonempty := by
          change 0 < f.fecOti.transferLength
          rw [length]
          exact List.length_pos_of_ne_nil (env.printXml_ne_nil _) }

/-- What `send_fdt` does in a handler. -/
theorem sendFdt_cases (env : Env) (t : Transmitter) (now : Nat) :
    (t.fdt.fileEntries = [] ∧ t.sendFdt env now = { state := t, ending := .ok () }) ∨
    ∃ table : FileDeliveryTable, t.fdt.fileEntries ≠ [] ∧ table.Reissues t.fdt ∧
      ((∃ e, t.sendFdt env now = { state := { t with fdt := table }, ending := .error e }) ∨
      ∃ f, FdtFile env t table f ∧ t.sendFdt env now = {
        state := { t with
          fdt := table.sent
          objects := t.objects ++ [f]
          files := t.files.insertOrAssign 0 t.objects.length }
        seen := [.built t.objects.length table f, .stored t.objects.length]
        ending := .ok () }) := by
  rcases buildFdt_cases env t now with ⟨none, run⟩ | ⟨table, some, same, ⟨e, run⟩ | ⟨f, made, run⟩⟩
  · exact Or.inl ⟨none, by simp only [sendFdt, run]⟩
  · exact Or.inr ⟨table, some, same, Or.inl ⟨e, by simp only [sendFdt, run]⟩⟩
  · refine Or.inr ⟨table, some, same, Or.inr ⟨f, made, ?_⟩⟩
    simp only [sendFdt, run]
    rfl

/-- What `send_fdt` does in a call of `send`. -/
theorem startSendFdt_cases (env : Env) (t : Transmitter) (now : Nat) (rest : List SendStep) :
    (t.fdt.fileEntries = [] ∧
      t.startSendFdt env now rest = { state := { t with call := rest }, ending := .ok () }) ∨
    ∃ table : FileDeliveryTable, t.fdt.fileEntries ≠ [] ∧ table.Reissues t.fdt ∧
      ((∃ e, t.startSendFdt env now rest = {
        state := { t with fdt := table, call := [] }, ending := .error e }) ∨
      ∃ f, FdtFile env t table f ∧ t.startSendFdt env now rest = {
        state := { t with
          fdt := table
          objects := t.objects ++ [f]
          call := .storeFdt t.objects.length :: .markSent :: rest }
        seen := [.built t.objects.length table f]
        ending := .ok () }) := by
  rcases buildFdt_cases env t now with ⟨none, run⟩ | ⟨table, some, same, ⟨e, run⟩ | ⟨f, made, run⟩⟩
  · exact Or.inl ⟨none, by simp only [startSendFdt, run]⟩
  · exact Or.inr ⟨table, some, same, Or.inl ⟨e, by simp only [startSendFdt, run]⟩⟩
  · exact Or.inr ⟨table, some, same, Or.inr ⟨f, made, by simp only [startSendFdt, run]⟩⟩

theorem nextFile_spec {k o : Nat} (next : t.nextFile = some (k, o)) :
    t.files.find? k = some o ∧ ∃ f, t.object? o = some f ∧ f.complete = false := by
  have member := List.mem_of_find?_eq_some next
  have pending := List.find?_some next
  refine ⟨SortedMap.mem_entries.mp member, ?_⟩
  cases found : t.object? o with
  | none => simp [found] at pending
  | some f => exact ⟨f, rfl, by simpa [found] using pending⟩

/-- How many symbols `send_next_packet` takes from a file. -/
def nofSymbols (t : Transmitter) (f : File) : Outcome Nat :=
  ceilInt (subSize t.maxPayload 4) f.fecOti.encodingSymbolLength

/-- What handing a packet of `n` symbols of a file to the socket does. -/
structure Hands (t : Transmitter) (k o : Nat) (f : File) (n : Nat) (packet : List UInt8) : Prop where
  active : t.active = true
  next : t.nextFile = some (k, o)
  object : t.object? o = some f
  count : t.nofSymbols f = .ok n
  some : f.unsent.take n ≠ []
  build : AlcPacket.build t.tsi f.entry.toi f.fecOti ((f.unsent.take n).map f.encoded) t.maxPayload
    f.fdtInstanceId = .ok packet
  run : t.sendNextPacket = {
    state := { t with
      objects := t.objects.set o (f.queue ((f.unsent.take n).map Placed.key))
      socket := t.socket ++ [⟨o, (f.unsent.take n).map f.encoded⟩] }
    seen := [.handed o f.entry.toi f.fecOti ((f.unsent.take n).map f.encoded) packet (t.datagram packet)]
    ending := .ok () }

theorem queue_nil (f : File) : f.queue [] = f := by
  have same : (f.sourceBlocks.map fun n block => block.queue fun i => decide ((n, i) ∈ ([] : List (Nat × Nat)))) =
      f.sourceBlocks := by
    ext1
    simp [SortedMap.map]
  rw [File.queue, same]

theorem setObject_self {o : Nat} {f : File} (found : t.object? o = some f) : t.setObject o f = t := by
  have same : t.objects.set o f = t.objects := by
    refine List.ext_getElem? fun p => ?_
    rw [List.getElem?_set]
    split
    · next here => subst here; rw [if_pos (object?_lt found)]; exact found.symm
    · rfl
  rw [setObject, same]

/-- `send_next_packet` finds nothing to send, hands a packet over, or has a
number of symbols the language does not define. -/
theorem sendNextPacket_cases (t : Transmitter) (sound : ∀ o f, t.object? o = some f → f.Sound) :
    (t.sendNextPacket = { state := t, ending := .ok () } ∧ (t.active = false ∨ t.nextFile = none ∨
      ∃ k o f n, t.nextFile = some (k, o) ∧ t.object? o = some f ∧ t.nofSymbols f = .ok n ∧
        f.unsent.take n = [])) ∨
    (∃ k o f n packet, t.Hands k o f n packet) ∨
    ∃ k o f, t.nextFile = some (k, o) ∧ t.object? o = some f ∧ t.nofSymbols f = .error .undefined ∧
      t.sendNextPacket = { state := t, ending := .error .undefined } := by
  by_cases active : t.active = true
  swap
  · exact Or.inl ⟨by rw [sendNextPacket, if_neg active], Or.inl (by simpa using active)⟩
  cases next : t.nextFile with
  | none => exact Or.inl ⟨by simp only [sendNextPacket, if_pos active, next], Or.inr (Or.inl rfl)⟩
  | some e =>
    obtain ⟨k, o⟩ := e
    obtain ⟨_, f, found, _⟩ := nextFile_spec next
    cases count : t.nofSymbols f with
    | error e =>
      have undefined : e = .undefined := by
        unfold nofSymbols ceilInt at count
        split_ifs at count
        exact (Except.error.inj count).symm
      subst undefined
      refine Or.inr (Or.inr ⟨k, o, f, rfl, found, count, ?_⟩)
      have stuck : f.getNextSymbols t.maxPayload = .error .undefined := by
        rw [File.getNextSymbols_eq, show ceilInt _ _ = _ from count, error_bind]
      simp only [sendNextPacket, if_pos active, next, found, stuck]
    | ok n =>
      have taken : f.getNextSymbols t.maxPayload = .ok ((f.unsent.take n).map f.encoded,
          f.queue ((f.unsent.take n).map Placed.key)) := by
        rw [File.getNextSymbols_eq, show ceilInt _ _ = _ from count, ok_bind]
      by_cases none : f.unsent.take n = []
      · refine Or.inl ⟨?_, Or.inr (Or.inr ⟨k, o, f, n, rfl, found, count, none⟩)⟩
        simp only [sendNextPacket, if_pos active, next, found, taken, none, List.map_nil, if_true, queue_nil,
          setObject_self found]
      · have some : (f.unsent.take n).map f.encoded ≠ [] := by simpa using none
        obtain ⟨payload, packed⟩ := EncodingSymbol.toPayload_ok (sound o f found).scheme (fun s member => by
          obtain ⟨placed, inTake, rfl⟩ := List.mem_map.mp member
          exact ((sound o f found).encoded_spec (List.mem_of_mem_take inTake)).1) some t.maxPayload
        have build : AlcPacket.build t.tsi f.entry.toi f.fecOti ((f.unsent.take n).map f.encoded) t.maxPayload
            f.fdtInstanceId = .ok (AlcPacket.header t.tsi f.entry.toi f.fecOti f.fdtInstanceId ++ payload) := by
          rw [AlcPacket.build, show EncodingSymbol.toPayload _ _ _ = _ from packed]
          rfl
        refine Or.inr (Or.inl ⟨k, o, f, n, _, active, next, found, count, none, build, ?_⟩)
        have rebuild : AlcPacket.build (t.setObject o (f.queue ((f.unsent.take n).map Placed.key))).tsi
            (f.queue ((f.unsent.take n).map Placed.key)).entry.toi
            (f.queue ((f.unsent.take n).map Placed.key)).fecOti ((f.unsent.take n).map f.encoded)
            (t.setObject o (f.queue ((f.unsent.take n).map Placed.key))).maxPayload
            (f.queue ((f.unsent.take n).map Placed.key)).fdtInstanceId = _ := build
        simp only [sendNextPacket, if_pos active, next, found, taken, if_neg some, rebuild]
        rfl

end Transmitter
end Libflute

import Libflute.Delivery

/-! Whether the File of an FDT is made of the packets of one instance. -/

namespace Libflute

namespace Receiver
variable {env : Env} {r : Receiver} {log : List ReceiverOutput}

/-- The EXT_FTI values and the instance ID the File under TOI 0 was last made
from; none when a table listed it. -/
def fdtSource (source : Option (FecOti × Nat)) : ReceiverOutput → Option (FecOti × Nat)
  | .created fecOti instanceId => some (fecOti, instanceId)
  | .started toi => if toi = 0 then none else source
  | _ => source

def sourceOf (log : List ReceiverOutput) : Option (FecOti × Nat) := log.foldl fdtSource none

/-- A byte of a packet of an instance that was put into the File under TOI 0. -/
def SentIn (log : List ReceiverOutput) (instanceId : Nat) (b : UInt8) : Prop :=
  ∃ symbols, .put 0 instanceId symbols ∈ log ∧ ∃ s ∈ symbols, b ∈ s.bytes

/-- A symbol of a packet of an instance that was put into the File under TOI 0. -/
def OfInstance (log : List ReceiverOutput) (instanceId : Nat) (symbol : EncodingSymbol) : Prop :=
  ∃ symbols, .put 0 instanceId symbols ∈ log ∧ symbol ∈ symbols

/-- What is put into the File under TOI 0 and what is parsed belongs to the
instance the File was made for, and what is parsed was sent in its packets. -/
def OfOneInstance (log : List ReceiverOutput) : ReceiverOutput → Prop
  | .put toi instanceId _ => toi = 0 → ∃ fecOti, sourceOf log = some (fecOti, instanceId)
  | .parsing instanceId buffer => (∃ fecOti, sourceOf log = some (fecOti, instanceId)) ∧
      ∀ b ∈ buffer, SentIn log instanceId b
  | _ => True

def Unmixed (log : List ReceiverOutput) : Prop :=
  ∀ before output after, log = before ++ output :: after → OfOneInstance before output

/-- The File under TOI 0, if there is one, was made from the EXT_FTI of an instance. -/
def MadeFromFti (log : List ReceiverOutput) (r : Receiver) : Prop :=
  ∀ f, r.files.find? 0 = some f → ∃ fecOti instanceId, sourceOf log = some (fecOti, instanceId) ∧ f.fecOti = fecOti

theorem sourceOf_append (log : List ReceiverOutput) (output : ReceiverOutput) :
    sourceOf (log ++ [output]) = fdtSource (sourceOf log) output := by
  simp [sourceOf]

theorem OfInstance.append {instanceId : Nat} {symbol : EncodingSymbol} (sent : OfInstance log instanceId symbol)
    (more : List ReceiverOutput) : OfInstance (log ++ more) instanceId symbol := by
  obtain ⟨symbols, put, within⟩ := sent
  exact ⟨symbols, List.mem_append_left _ put, within⟩

theorem Unmixed.append {output : ReceiverOutput} (unmixed : Unmixed log) (one : OfOneInstance log output) :
    Unmixed (log ++ [output]) := by
  intro before other after split
  rcases List.append_eq_append_iff.mp split with ⟨mid, rfl, tail⟩ | ⟨mid, rfl, tail⟩
  · cases mid with
    | nil =>
      obtain ⟨rfl, _⟩ := List.cons.inj tail
      simpa using one
    | cons first rest => simp at tail
  · cases mid with
    | nil =>
      obtain ⟨rfl, _⟩ := List.cons.inj tail
      simpa using one
    | cons first rest =>
      obtain ⟨rfl, rfl⟩ := List.cons.inj tail
      exact unmixed before _ rest rfl

/-- The File under TOI 0 has the EXT_FTI values and symbols of the instance it was made for. -/
def FromInstance (env : Env) (log : List ReceiverOutput) (f : File) : Prop :=
  ∃ fecOti instanceId, sourceOf log = some (fecOti, instanceId) ∧
    f.entry = { contentLength := toU32 fecOti.transferLength, fecOti := fecOti } ∧ f.beenDecoded = false ∧
    fecOti.Tileable ∧ f.Sourced env (OfInstance log instanceId)

/-- What a run keeps: the log so far is unmixed, and so is the File under TOI 0. -/
structure OneInstance (env : Env) (log : List ReceiverOutput) (r : Receiver) : Prop where
  unmixed : Unmixed log
  held : ∀ f, r.files.find? 0 = some f → FromInstance env log f

/-- An output that says nothing about TOI 0. -/
def Silent : ReceiverOutput → Prop
  | .created _ _ => False
  | .put toi _ _ => toi ≠ 0
  | .parsing _ _ => False
  | .started toi => toi ≠ 0
  | _ => True

theorem Silent.sourceOf {output : ReceiverOutput} (silent : Silent output) (log : List ReceiverOutput) :
    sourceOf (log ++ [output]) = sourceOf log := by
  rw [sourceOf_append]
  cases output with
  | created => exact silent.elim
  | parsing => exact silent.elim
  | started toi => exact if_neg silent
  | _ => rfl

theorem Silent.ofOneInstance {output : ReceiverOutput} (silent : Silent output) : OfOneInstance log output := by
  cases output with
  | put => exact fun zero => absurd zero silent
  | parsing => exact silent.elim
  | _ => trivial

theorem FromInstance.append {f : File} {output : ReceiverOutput} (made : FromInstance env log f)
    (same : sourceOf (log ++ [output]) = sourceOf log) : FromInstance env (log ++ [output]) f := by
  obtain ⟨fecOti, instanceId, source, entry, undecoded, tile, sourced⟩ := made
  exact ⟨fecOti, instanceId, same.trans source, entry, undecoded, tile, sourced.mono fun _ sent => sent.append _⟩

theorem OneInstance.silent {r' : Receiver} {output : ReceiverOutput} (one : OneInstance env log r)
    (silent : Silent output) (kept : ∀ f, r'.files.find? 0 = some f → r.files.find? 0 = some f) :
    OneInstance env (log ++ [output]) r' :=
  ⟨one.unmixed.append silent.ofOneInstance, fun f found => (one.held f (kept f found)).append (silent.sourceOf log)⟩

theorem OneInstance.of_find? {r' : Receiver} (one : OneInstance env log r)
    (kept : ∀ f, r'.files.find? 0 = some f → r.files.find? 0 = some f) : OneInstance env log r' :=
  ⟨one.unmixed, fun f found => one.held f (kept f found)⟩

/-- What a part of the handler keeps and the part behind it keeps, both keep. -/
theorem OneInstance.andThen {first : HandlerResult} {rest : Receiver → HandlerResult}
    (one : OneInstance env (log ++ first.seen) first.state)
    (later : first.ending = .ok () → OneInstance env (log ++ first.seen ++ (rest first.state).seen) (rest first.state).state) :
    OneInstance env (log ++ (first.andThen rest).seen) (first.andThen rest).state := by
  cases ending : first.ending with
  | error e => rwa [HandlerResult.andThen_of_error ending]
  | ok _ =>
    rw [HandlerResult.andThen_of_ok ending]
    simpa only [List.append_assoc] using later ending

theorem OneInstance.startFiles (one : OneInstance env log r) {entries : List FileEntry}
    (others : ∀ fe ∈ entries, fe.toi ≠ 0) :
    OneInstance env (log ++ (startFiles env r entries).seen) (startFiles env r entries).state := by
  induction entries generalizing r log with
  | nil =>
    rw [Receiver.startFiles, List.append_nil]
    exact one
  | cons fe rest ih =>
    rw [List.forall_mem_cons] at others
    rw [Receiver.startFiles]
    split
    · exact ih one others.2
    · split
      · rw [List.append_nil]
        exact one
      · next f _ =>
        have inserted : OneInstance env (log ++ [.started fe.toi]) { r with files := r.files.insert fe.toi f } := by
          refine one.silent others.1 fun g found => ?_
          change (r.files.insert fe.toi f).find? 0 = some g at found
          rwa [SortedMap.find?_insert, if_neg (Ne.symm others.1)] at found
        exact OneInstance.andThen inserted fun _ => ih inserted others.2

theorem find?_setFile_of_ne (r : Receiver) {toi : Nat} (other : toi ≠ 0) (f : File) :
    (r.setFile toi f).files.find? 0 = r.files.find? 0 := by
  rw [find?_setFile, if_neg (Ne.symm other)]

theorem OneInstance.startFdt (one : OneInstance env log r) {alc : AlcPacket}
    (tile : r.files.find? 0 = none → alc.toi = 0 → alc.fecOti.Tileable) :
    OneInstance env (log ++ (startFdt env r alc).seen) (startFdt env r alc).state := by
  rcases startFdt_cases env r alc with ⟨_, run⟩ | ⟨f, toi, _, absent, made, run⟩
  · rw [run, List.append_nil]
    exact one
  · rw [run]
    refine ⟨one.unmixed.append trivial, fun g found => ?_⟩
    change (r.files.insert 0 f).find? 0 = some g at found
    rw [SortedMap.find?_insert, if_pos rfl, absent] at found
    obtain rfl := Option.some.inj found
    exact ⟨alc.fecOti, alc.fdtInstanceId, sourceOf_append _ _, File.ofEntry_entry made,
      (File.ofEntry_receiving made).undecoded, tile absent toi, File.ofEntry_sourced made⟩

theorem OneInstance.parseFdt {f : File} {instanceId : Nat} (one : OneInstance env log r)
    (parsing : OfOneInstance log (.parsing instanceId f.buffer)) (whole : f.length = f.buffer.length)
    (others : ∀ table, FileDeliveryTable.parse env instanceId f.buffer = .ok table →
      ∀ fe ∈ table.fileEntries, fe.toi ≠ 0) :
    OneInstance env (log ++ (parseFdt env r instanceId f).seen) (parseFdt env r instanceId f).state := by
  have content : readBytes f.buffer f.length = .ok f.buffer :=
    readBytes_eq_ok.mpr ⟨whole.le, by rw [whole, List.take_length]⟩
  have same : sourceOf (log ++ [.parsing instanceId f.buffer]) = sourceOf log := sourceOf_append _ _
  unfold Receiver.parseFdt
  rw [content, ok_bind]
  cases parsed : FileDeliveryTable.parse env instanceId f.buffer with
  | error e => exact ⟨one.unmixed.append parsing, fun g found => (one.held g found).append same⟩
  | ok table =>
    have erased : OneInstance env (log ++ [.parsing instanceId f.buffer]) ({ r with fdt := some table }.eraseFile 0) := by
      refine ⟨one.unmixed.append parsing, fun g found => ?_⟩
      rw [find?_eraseFile, if_pos rfl] at found
      cases found
    refine OneInstance.andThen erased fun _ => ?_
    refine OneInstance.andThen (erased.startFiles (others table parsed)) fun _ => ?_
    exact (erased.startFiles (others table parsed)).silent (by trivial) fun _ found => found

theorem FromInstance.receiving {f : File} (made : FromInstance env log f) : f.Receiving := by
  obtain ⟨fecOti, instanceId, _, _, undecoded, _, sourced⟩ := made
  exact ⟨undecoded, sourced.room⟩

theorem FromInstance.whole {f : File} (made : FromInstance env log f) : f.length = f.buffer.length := by
  rw [File.length, if_neg (by simp [made.receiving.undecoded]), made.receiving.room]

theorem FromInstance.plain {f : File} (made : FromInstance env log f) : f.entry.contentEncoding = "" := by
  obtain ⟨fecOti, instanceId, _, entry, _⟩ := made
  rw [entry]

/-- A complete FDT that was made and filled for an instance is parsed as of that instance. -/
theorem OneInstance.completeFile {f : File} {toi instanceId : Nat} (one : OneInstance env log r)
    (own : toi = 0 → f.complete = true ∧ FromInstance env log f ∧ (∃ fecOti, sourceOf log = some (fecOti, instanceId)) ∧
      ∀ table, FileDeliveryTable.parse env instanceId f.buffer = .ok table → ∀ fe ∈ table.fileEntries, fe.toi ≠ 0) :
    OneInstance env (log ++ (completeFile env r toi instanceId f).seen) (completeFile env r toi instanceId f).state := by
  unfold Receiver.completeFile
  have filtered : OneInstance env log { r with files := r.files.filter fun other g => other = toi ∨
      g.entry.contentLocation ≠ f.entry.contentLocation } := by
    refine one.of_find? fun g found => ?_
    change (r.files.filter _).find? 0 = some g at found
    rw [SortedMap.find?_filter, Option.filter_eq_some_iff] at found
    exact found.1
  by_cases zero : toi = 0
  · obtain ⟨complete, made, ⟨fecOti, source⟩, others⟩ := own zero
    rw [File.decode_plain made.plain]
    have set : OneInstance env log (Receiver.setFile { r with files := r.files.filter fun other g => other = toi ∨
        g.entry.contentLocation ≠ f.entry.contentLocation } toi f) := by
      refine ⟨one.unmixed, fun g found => ?_⟩
      rw [find?_setFile, if_pos zero.symm] at found
      obtain rfl := Option.some.inj found
      exact made
    refine OneInstance.andThen (by simpa using set) fun _ => ?_
    rw [if_pos zero, List.append_nil]
    refine set.parseFdt ⟨⟨fecOti, source⟩, ?_⟩ made.whole others
    obtain ⟨fecOti', instanceId', source', entry, _, tile, sourced⟩ := made
    rw [source] at source'
    obtain ⟨rfl, rfl⟩ := Prod.mk.inj (Option.some.inj source')
    intro b member
    have layout : f.fecOti.Tileable := by rwa [File.fecOti, entry]
    obtain ⟨symbol, ⟨symbols, put, within⟩, here⟩ := (sourced.assembledFrom layout complete).mem member
    exact ⟨symbols, put, symbol, within, here⟩
  · cases f.decode env with
    | mk decoded ending =>
      have set : OneInstance env log (Receiver.setFile { r with files := r.files.filter fun other g => other = toi ∨
          g.entry.contentLocation ≠ f.entry.contentLocation } toi decoded) :=
        filtered.of_find? fun g found => by rwa [find?_setFile_of_ne _ zero] at found
      refine OneInstance.andThen (by simpa using set) fun _ => ?_
      rw [if_neg zero, List.append_nil]
      split
      · refine set.silent (by trivial) fun g found => ?_
        rwa [find?_eraseFile, if_neg (Ne.symm zero)] at found
      · simpa using set

/-- A packet of TOI 0 that fits the File it is for, and is of its instance; and a
table that is complete with it and lists no TOI 0. -/
structure FitsInstance (env : Env) (r : Receiver) (log : List ReceiverOutput) (datagram : List UInt8)
    (alc : AlcPacket) : Prop where
  same : ∀ f, r.files.find? 0 = some f → f.complete = false → ∃ fecOti, sourceOf log = some (fecOti, alc.fdtInstanceId)
  tile : r.files.find? 0 = none → alc.fecOti.Tileable
  fits : ∀ before after symbols stored, Puts env r datagram alc before after symbols stored → before.FitsAll env symbols
  others : ∀ f table, r.completedBy env datagram = some f →
    FileDeliveryTable.parse env alc.fdtInstanceId f.buffer = .ok table → ∀ fe ∈ table.fileEntries, fe.toi ≠ 0

/-- A packet of TOI 0 of the session fits. -/
def FitsNext (env : Env) (r : Receiver) (log : List ReceiverOutput) : ReceiverEvent → Prop
  | .datagram datagram => ∀ alc,
      AlcPacket.parse (r.arrived datagram).data (min maxDatagram datagram.length) = .ok alc → alc.tsi = r.tsi →
        alc.toi = 0 → FitsInstance env r log datagram alc
  | _ => True

/-- The File under TOI 0 behind the start of an FDT is for the instance of the packet. -/
theorem source_of_puts {datagram : List UInt8} {alc : AlcPacket} {before after : File}
    {symbols : List EncodingSymbol} {stored : Outcome Unit}
    (puts : Puts env r datagram alc before after symbols stored) (zero : alc.toi = 0)
    (same : ∀ f, r.files.find? 0 = some f → f.complete = false →
      ∃ fecOti, sourceOf log = some (fecOti, alc.fdtInstanceId)) :
    ∃ fecOti, sourceOf (log ++ (startFdt env (r.arrived datagram) alc).seen) = some (fecOti, alc.fdtInstanceId) := by
  have found := puts.stores.found
  rcases startFdt_cases env (r.arrived datagram) alc with ⟨_, run⟩ | ⟨f, _, _, _, _, run⟩
  · rw [run] at found ⊢
    rw [zero] at found
    rw [List.append_nil]
    exact same before found puts.stores.incomplete
  · rw [run]
    exact ⟨alc.fecOti, sourceOf_append _ _⟩

theorem OneInstance.handlePacket {datagram : List UInt8} {alc : AlcPacket} (one : OneInstance env log r)
    (running : r.running = true)
    (parsed : AlcPacket.parse (r.arrived datagram).data (min maxDatagram datagram.length) = .ok alc)
    (mine : alc.tsi = r.tsi) (fits : alc.toi = 0 → FitsInstance env r log datagram alc) :
    OneInstance env (log ++ (handlePacket env (r.arrived datagram) alc (min maxDatagram datagram.length)).seen)
      (handlePacket env (r.arrived datagram) alc (min maxDatagram datagram.length)).state := by
  have arrived : OneInstance env log (r.arrived datagram) := one.of_find? fun _ found => found
  have started : OneInstance env (log ++ (Receiver.startFdt env (r.arrived datagram) alc).seen)
      (Receiver.startFdt env (r.arrived datagram) alc).state := arrived.startFdt fun absent zero => (fits zero).tile absent
  refine OneInstance.andThen started fun starts => ?_
  rcases receiveSymbols_cases env (Receiver.startFdt env (r.arrived datagram) alc).state alc
    (min maxDatagram datagram.length) with ⟨ending, run⟩ | ⟨before, after, symbols, stored, stores, run⟩
  · rw [run, List.append_nil]
    exact started
  rw [run]
  have puts : Puts env r datagram alc before after symbols stored := ⟨running, parsed, mine, starts, stores⟩
  set log' := log ++ (Receiver.startFdt env (r.arrived datagram) alc).seen
  by_cases zero : alc.toi = 0
  · obtain ⟨fecOti, source⟩ := source_of_puts puts zero (fits zero).same
    have source' : sourceOf (log' ++ [.put alc.toi alc.fdtInstanceId symbols]) = sourceOf log' := sourceOf_append _ _
    have put : OfOneInstance log' (.put alc.toi alc.fdtInstanceId symbols) := fun _ => ⟨fecOti, source⟩
    -- the File with the symbols of the packet is still of one instance
    have made : FromInstance env (log' ++ [.put alc.toi alc.fdtInstanceId symbols]) after := by
      have earlier := (started.held before (by rw [← zero]; exact stores.found)).append source'
      have receiving := earlier.receiving
      obtain ⟨fecOti', instanceId', source'', entry, _, tile, sourced⟩ := earlier
      rw [source', source] at source''
      obtain ⟨rfl, rfl⟩ := Prod.mk.inj (Option.some.inj source'')
      have layout : before.fecOti.Tileable := by rwa [File.fecOti, entry]
      have later := sourced.putSymbols layout ((fits zero).fits _ _ _ _ puts) fun s member =>
        ⟨symbols, by simp [zero], member⟩
      have kept := receiving.putSymbols env symbols
      rw [stores.put] at later kept
      exact ⟨fecOti, alc.fdtInstanceId, source'.trans source, stores.entry.trans entry, kept.undecoded, tile, later⟩
    have set : OneInstance env (log' ++ [.put alc.toi alc.fdtInstanceId symbols])
        ((Receiver.startFdt env (r.arrived datagram) alc).state.setFile alc.toi after) := by
      refine ⟨started.unmixed.append put, fun g found => ?_⟩
      rw [find?_setFile, if_pos zero.symm] at found
      obtain rfl := Option.some.inj found
      exact made
    refine OneInstance.andThen set fun ends => ?_
    dsimp only
    split
    · next complete =>
      refine set.completeFile fun _ => ⟨complete, made, ⟨fecOti, source'.trans source⟩, fun table parses => ?_⟩
      obtain rfl : stored = .ok () := ends
      exact (fits zero).others after table (puts.completedBy complete) parses
    · simpa using set
  · have set : OneInstance env (log' ++ [.put alc.toi alc.fdtInstanceId symbols])
        ((Receiver.startFdt env (r.arrived datagram) alc).state.setFile alc.toi after) :=
      started.silent zero fun g found => by rwa [find?_setFile_of_ne _ zero] at found
    refine OneInstance.andThen set fun _ => ?_
    dsimp only
    split
    · exact set.completeFile fun same => absurd same zero
    · simpa using set

theorem OneInstance.step {r' : Receiver} {out : List ReceiverOutput} {event : ReceiverEvent}
    (one : OneInstance env log r) (fits : r.FitsNext env log event)
    (step : (receiver env).step r event = some (r', out)) : OneInstance env (log ++ out) r' := by
  cases event with
  | datagram datagram =>
    obtain ⟨_, rfl, outputs⟩ := receiver_step_datagram step
    have handled : OneInstance env (log ++ (r.handleReceiveFrom env datagram).seen)
        (r.handleReceiveFrom env datagram).state := by
      have arrived : OneInstance env log (r.arrived datagram) := one.of_find? fun _ found => found
      rcases handleReceiveFrom_cases env r datagram with ⟨_, run⟩ | ⟨running, armed, state, seen⟩
      · rw [run, List.append_nil]
        exact arrived
      rw [state, seen]
      rcases tryBlock_cases env (r.arrived datagram) (min maxDatagram datagram.length) with
        ⟨ending, run⟩ | ⟨alc, parsed, mine, run⟩
      · rw [run, List.append_nil]
        exact arrived.of_find? fun _ found => found
      · rw [run]
        exact (one.handlePacket running parsed mine (fits alc parsed mine)).of_find? fun _ found => found
    rcases outputs with ⟨_, rfl⟩ | ⟨what, _, rfl⟩
    · exact handled
    · rw [← List.append_assoc]
      exact handled.silent (by trivial) fun _ found => found
  | receiveError =>
    simp only [receiver] at step
    split at step
    · obtain ⟨rfl, rfl⟩ := Prod.mk.inj (Option.some.inj step)
      rw [List.append_nil]
      exact one.of_find? fun _ found => found
    · cases step
  | removeExpiredFiles expired =>
    obtain ⟨rfl, rfl⟩ := Prod.mk.inj (Option.some.inj step)
    rw [List.append_nil]
    refine one.of_find? fun g found => ?_
    rw [SortedMap.find?_filter, Option.filter_eq_some_iff] at found
    exact found.1
  | removeFileWithContentLocation cl =>
    obtain ⟨rfl, rfl⟩ := Prod.mk.inj (Option.some.inj step)
    rw [List.append_nil]
    refine one.of_find? fun g found => ?_
    rw [SortedMap.find?_filter, Option.filter_eq_some_iff] at found
    exact found.1
  | registerCompletionCallback callable =>
    obtain ⟨rfl, rfl⟩ := Prod.mk.inj (Option.some.inj step)
    rw [List.append_nil]
    exact one.of_find? fun _ found => found
  | stop =>
    obtain ⟨rfl, rfl⟩ := Prod.mk.inj (Option.some.inj step)
    rw [List.append_nil]
    exact one.of_find? fun _ found => found

/-- In every run whose packets of TOI 0 fit, the File under TOI 0 was made from
EXT_FTI, and everything put into it and parsed is of the instance it was made for. -/
theorem instances_unmixed (env : Env) (r : Receiver) (log : List ReceiverOutput) :
    (receiver env).Reach (fun r log e => r.FitsNext env log e) r log → Unmixed log ∧ r.MadeFromFti log := by
  intro reach
  have one : OneInstance env log r := by
    refine Machine.Reach.invariant (I := fun r log => OneInstance env log r) ?_ ?_ reach
    · rintro r ⟨nothing, _⟩
      refine ⟨fun before output after split => by simp at split, fun f found => ?_⟩
      rw [nothing] at found
      cases found
    · exact fun r log e r' out one fits step => one.step fits step
  refine ⟨one.unmixed, fun f found => ?_⟩
  obtain ⟨fecOti, instanceId, source, entry, _⟩ := one.held f found
  exact ⟨fecOti, instanceId, source, by rw [File.fecOti, entry]⟩

/-- `FitsNext` as it is evaluated in a run. -/
def fitsNext (env : Env) (r : Receiver) (log : List ReceiverOutput) : ReceiverEvent → Bool
  | .datagram datagram =>
    (AlcPacket.parse (r.arrived datagram).data (min maxDatagram datagram.length)).toOption.all fun alc =>
      (r.files.find? 0).all (fun f => f.complete || (sourceOf log).any fun source => source.2 == alc.fdtInstanceId) &&
        ((r.files.find? 0).isSome || decide alc.fecOti.Tileable) &&
        r.putsMeet env datagram (fun _ f symbols => f.fitsAll env symbols) &&
        (r.completedBy env datagram).all fun f =>
          (FileDeliveryTable.parse env alc.fdtInstanceId f.buffer).toOption.all fun table =>
            table.fileEntries.all fun fe => fe.toi ≠ 0
  | _ => true

theorem fitsNext_of_eval {e : ReceiverEvent} (fits : r.fitsNext env log e = true) : r.FitsNext env log e := by
  cases e with
  | datagram datagram =>
    intro alc parsed _ _
    simp only [fitsNext, toOption_eq_some.mpr parsed, Option.all_some, Bool.and_eq_true, Bool.or_eq_true,
      decide_eq_true_eq] at fits
    obtain ⟨⟨⟨same, tile⟩, symbols⟩, others⟩ := fits
    refine ⟨fun f held incomplete => ?_, fun absent => ?_, fun _ _ _ _ puts => File.fitsAll_iff.mp (meets_of_puts symbols puts),
      fun f table completed parses fe listed => ?_⟩
    · rw [held, Option.all_some, incomplete, Bool.false_or, Option.any_eq_true] at same
      obtain ⟨⟨fecOti, instanceId⟩, source, mine⟩ := same
      obtain rfl := beq_iff_eq.mp mine
      exact ⟨fecOti, source⟩
    · exact tile.resolve_left (by simp [absent])
    · rw [completed, Option.all_some, toOption_eq_some.mpr parses, Option.all_some, List.all_eq_true] at others
      exact of_decide_eq_true (others fe listed)
  | _ => trivial

/-- The table of an FDT instance that lists one file. -/
def instanceTable (toi : String) : SampleTable where
  files := [listedFile toi "f" "3"]

/-- One of two symbols of an instance. -/
def instancePacket (instanceId id : Nat) (table : SampleTable) : List UInt8 :=
  AlcPacket.header 7 0 { transferLength := table.text.length, encodingSymbolLength := 100, maxSourceBlockLength := 2 }
    instanceId ++ (Octets.be16 0 ++ Octets.be16 id ++ (table.text.drop (id * 100)).take 100)

def ReceiverOutput.parses (instanceId : Nat) : ReceiverOutput → Bool
  | .parsing other _ => other == instanceId
  | _ => false

/-- Two instances that come in two packets each, the second symbol first. -/
def instancesRun : List ReceiverEvent := [
  .datagram (instancePacket 1 1 (instanceTable "1")),
  .datagram (instancePacket 1 0 (instanceTable "1")),
  .datagram (instancePacket 2 1 (instanceTable "2")),
  .datagram (instancePacket 2 0 (instanceTable "2"))]

def instancesEnv : Env := tablesEnv [instanceTable "1", instanceTable "2"] []

theorem instances_unmixed_two : ∃ r log, (receiver instancesEnv).Reach (fun r log e => r.FitsNext instancesEnv log e) r log ∧
    log.any (ReceiverOutput.parses 1) = true ∧ log.any (ReceiverOutput.parses 2) = true ∧
    (log.filter (ReceiverOutput.putsTo 0)).length = 4 ∧ Unmixed log ∧ r.MadeFromFti log := by
  obtain ⟨s, log, logged, checked⟩ := Machine.exists_reach (M := (receiver instancesEnv).logged)
    (fun s _ e => s.1.FitsNext instancesEnv s.2 e) (fun s e => s.1.fitsNext instancesEnv s.2 e) (idleReceiver, [])
    instancesRun
    (fun result => result.2.any (ReceiverOutput.parses 1) && result.2.any (ReceiverOutput.parses 2) &&
      decide ((result.2.filter (ReceiverOutput.putsTo 0)).length = 4))
    (fun _ _ _ fits => fitsNext_of_eval fits) ⟨⟨rfl, rfl, rfl, rfl, rfl⟩, rfl⟩ (by decide +kernel)
  simp only [Bool.and_eq_true, decide_eq_true_eq] at checked
  obtain ⟨⟨one, two⟩, puts⟩ := checked
  obtain ⟨_, reach⟩ := @Machine.Reach.of_logged _ _ _ (receiver instancesEnv) (fun r log e => FitsNext instancesEnv r log e)
    _ _ logged
  obtain ⟨unmixed, made⟩ := instances_unmixed _ s.1 log reach
  exact ⟨s.1, log, reach, one, two, puts, unmixed, made⟩

/-- A symbol of an FDT of three bytes. -/
def fdtSymbol (instanceId id : Nat) (byte : UInt8) : List UInt8 :=
  AlcPacket.header 7 0 { transferLength := 3, encodingSymbolLength := 1, maxSourceBlockLength := 3 } instanceId ++
    (Octets.be16 0 ++ Octets.be16 id ++ [byte])

/-- A File made for one FDT instance has got a symbol of another. -/
def mixesInstances : List ReceiverOutput → Bool
  | [.created _ first, .put _ _ _, .put toi second _] => toi == 0 && first != second
  | _ => false

/-- A symbol of the next instance goes into the File of the one before. -/
theorem not_instances_unmixed : ¬ ∀ (env : Env) (r : Receiver) (log : List ReceiverOutput),
    (receiver env).Reach Machine.always r log → Unmixed log ∧ r.MadeFromFti log := by
  intro claim
  obtain ⟨r, log, reach, checked⟩ := Machine.exists_reach (M := receiver (tablesEnv [] []))
    Machine.always (fun _ _ => true) idleReceiver [.datagram (fdtSymbol 1 0 60), .datagram (fdtSymbol 2 1 70)]
    (fun result => mixesInstances result.2)
    (fun _ _ _ _ => trivial) ⟨rfl, rfl, rfl, rfl, rfl⟩ (by decide +kernel)
  obtain ⟨unmixed, _⟩ := claim _ r log reach
  dsimp only [mixesInstances] at checked
  split at checked
  · next fecOti first _ _ _ toi second symbols =>
    simp only [Bool.and_eq_true, beq_iff_eq, bne_iff_ne] at checked
    obtain ⟨fecOti', source⟩ := unmixed [_, _] _ [] rfl checked.1
    exact checked.2 (Prod.mk.inj (Option.some.inj source)).2
  · cases checked

end Receiver
end Libflute

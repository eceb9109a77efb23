import Libflute.Delivery
import Libflute.Governing
import Libflute.NoneComplete
import Libflute.Transfer

/-! Files with one location in a table: which of them the receiver delivers. -/

namespace Libflute

/-- A file as the transmitter makes it: its packets fit the receive buffer, and
decoding it again ends. -/
structure File.Sendable (env : Env) (tsi : Nat) (f : File) : Prop where
  new : f.New
  digest : f.DigestHolds env
  tile : f.fecOti.Tileable
  small : f.fecOti.encodingSymbolLength < 2 ^ 31
  blocks : f.sourceBlocks = f.fecOti.blocksAt fun _ _ => false
  nonempty : 0 < f.fecOti.transferLength
  data : f.entry.toi ≠ 0 ∧ f.entry.toi < 2 ^ 16
  whole : ∀ key, f.Holds key → (f.packet tsi key).length ≤ maxDatagram
  decodes : ∀ g : File, g.entry = f.entry → g.buffer = f.buffer →
    (g.decode env).2 = .ok () ∨ ∃ what, (g.decode env).2 = .error (.throws (.exception what))

/-- What a receiver that has the bytes of the file gets by decoding them. -/
def File.Yields (env : Env) (f : File) (content : List UInt8) : Prop :=
  ∀ g : File, g.entry = f.entry → g.buffer = f.buffer → g.beenDecoded = false →
    ∃ h, g.decode env = (h, .ok ()) ∧ h.buffer = content

namespace File
variable {env : Env} {tsi : Nat} {f g : File} {key : Nat × Nat}

theorem yields_plain (plain : f.entry.contentEncoding = "") : f.Yields env f.buffer := by
  intro g entry buffer _
  exact ⟨g, decode_plain (by rw [entry]; exact plain), buffer⟩

theorem yields_inflated {content : List UInt8}
    (known : f.entry.contentEncoding = "gzip" ∨ f.entry.contentEncoding = "deflate")
    (inflated : env.inflate f.windowBits f.stream = some content) (short : content.length ≤ zlibChunk)
    (length : f.entry.contentLength = content.length)
    (digest : f.entry.contentMd5 = if content = [] then "" else base64Encode (env.md5 content)) :
    f.Yields env content := by
  intro g entry buffer undecoded
  have stream : g.stream = f.stream := by rw [File.stream, File.stream, buffer, fecOti, fecOti, entry]
  have windowBits : g.windowBits = f.windowBits := by rw [File.windowBits, File.windowBits, entry]
  obtain ⟨h, run, same, _⟩ := decode_content undecoded (by rwa [entry]) (by rwa [windowBits, stream]) short
    (by rwa [entry]) (by rwa [entry])
  exact ⟨h, run, same⟩

theorem Sendable.tiled (sendable : f.Sendable env tsi) : f.Tiled :=
  sendable.new.tiled sendable.tile sendable.small sendable.blocks

/-- The receiver's file for its entry holds none of its symbols yet. -/
theorem Sendable.receiving (sendable : f.Sendable env tsi) (made : File.ofEntry env f.entry = .ok g) :
    Holding f [] g := by
  rw [File.ofEntry] at made
  split at made
  · have layout := File.withBlocks_layout
      (f := { entry := f.entry, buffer := env.fresh f.entry.fecOti.transferLength }) sendable.tile sendable.nonempty
    obtain ⟨new, _⟩ := File.withBlocks_new made sendable.new.sound.scheme rfl (env.fresh_length _)
      sendable.new.sound.digest rfl
    obtain rfl := Except.ok.inj (layout.symm.trans made)
    refine ⟨new.sound, rfl, ?_, rfl, new.idle, fun key => ?_, by simp⟩
    · simp only [File.shape, sendable.blocks]
      rfl
    · simp [new.undone key]
  · cases made

end File

/-- A packet of a file with the symbol it carries. -/
structure Arrival where
  file : File
  key : Nat × Nat

namespace Arrival

def event (tsi : Nat) (a : Arrival) : ReceiverEvent := .datagram (a.file.packet tsi a.key)

end Arrival

/-- All packets of a file have arrived. -/
def Arrived (past : List Arrival) (f : File) : Prop := ∀ key, f.Holds key → ⟨f, key⟩ ∈ past

/-- All packets of some file with the location have arrived. -/
def Settled (sent : List File) (past : List Arrival) (location : String) : Prop :=
  ∃ g ∈ sent, g.entry.contentLocation = location ∧ Arrived past g

section
variable {past more : List Arrival} {sent : List File} {a : Arrival} {f : File} {location : String}

theorem Arrived.append (arrived : Arrived past f) (more : List Arrival) : Arrived (past ++ more) f :=
  fun key holds => List.mem_append_left _ (arrived key holds)

theorem Settled.append (settled : Settled sent past location) (more : List Arrival) :
    Settled sent (past ++ more) location := by
  obtain ⟨g, listed, same, arrived⟩ := settled
  exact ⟨g, listed, same, arrived.append more⟩

theorem mem_concat_of_ne (other : f ≠ a.file) {key : Nat × Nat} : ⟨f, key⟩ ∈ past ++ [a] ↔ ⟨f, key⟩ ∈ past := by
  refine ⟨fun member => ?_, List.mem_append_left _⟩
  rcases List.mem_append.mp member with old | new
  · exact old
  · exact absurd (congrArg Arrival.file (List.mem_singleton.mp new)) other

/-- A packet can complete only its own file. -/
theorem Arrived.of_concat (arrived : Arrived (past ++ [a]) f) (before : ¬ Arrived past f) : f = a.file := by
  by_contra other
  exact before fun key holds => (mem_concat_of_ne other).mp (arrived key holds)

theorem Settled.of_concat (settled : Settled sent (past ++ [a]) location) (before : ¬ Settled sent past location) :
    location = a.file.entry.contentLocation ∧ Arrived (past ++ [a]) a.file := by
  obtain ⟨g, listed, rfl, arrived⟩ := settled
  obtain rfl := arrived.of_concat fun old => before ⟨g, listed, rfl, old⟩
  exact ⟨rfl, arrived⟩

end

namespace Receiver
variable {env : Env} {tsi : Nat} {r : Receiver} {f g : File} {key : Nat × Nat}

/-- A receiver of the session that waits for a datagram and delivers files. -/
structure Ready (tsi : Nat) (r : Receiver) : Prop where
  armed : r.armed = true
  running : r.running = true
  completionCb : r.completionCb = true
  tsi : r.tsi = tsi

/-- The packet as the receiver parses it. -/
def dataPacket (tsi : Nat) (f : File) : AlcPacket := { tsi := tsi, toi := f.entry.toi, lctHeaderLen := 3 }

theorem arrived_data (r : Receiver) {datagram : List UInt8} (fits : datagram.length ≤ maxDatagram) :
    (r.arrived datagram).data = datagram ++ r.data.drop datagram.length := by
  change datagram.take maxDatagram ++ r.data.drop (min maxDatagram datagram.length) = _
  rw [List.take_of_length_le fits, min_eq_right fits]

theorem parse_packet (sendable : f.Sendable env tsi) (session : tsi < 2 ^ 16) (held : f.Holds key) (r : Receiver) :
    AlcPacket.parse (r.arrived (f.packet tsi key)).data (min maxDatagram (f.packet tsi key).length) =
      .ok (dataPacket tsi f) := by
  obtain ⟨data, small⟩ := sendable.data
  have fits := sendable.whole key held
  have header := AlcPacket.length_header tsi f.entry.toi f.fecOti f.fdtInstanceId
  have long : 4 ≤ (f.packet tsi key).length := by
    rw [File.packet, List.length_append, header]
    split <;> omega
  rw [arrived_data r fits, min_eq_right fits]
  generalize (f.packet tsi key).length = len at long ⊢
  rw [File.packet, List.append_assoc, AlcPacket.parse_header_data (by rwa [Nat.mod_eq_of_lt small]) long,
    Nat.mod_eq_of_lt session, Nat.mod_eq_of_lt small]
  rfl

/-- The step of a packet of the session that is not of the FDT, when its handler
does not end with more than a `std::exception`. -/
theorem step_packet (ready : r.Ready tsi) (sendable : f.Sendable env tsi) (session : tsi < 2 ^ 16)
    (held : f.Holds key) {result : HandlerResult}
    (handled : receiveSymbols env (r.arrived (f.packet tsi key)) (dataPacket tsi f)
      (min maxDatagram (f.packet tsi key).length) = result)
    (ends : result.ending = .ok () ∨ ∃ what, result.ending = .error (.throws (.exception what))) :
    (receiver env).step r (.datagram (f.packet tsi key)) =
      some ({ result.state with armed := true }, result.seen) := by
  have idle : startFdt env (r.arrived (f.packet tsi key)) (dataPacket tsi f) =
      { state := r.arrived (f.packet tsi key) } := by
    rw [startFdt, if_neg]
    rintro ⟨zero, _⟩
    exact sendable.data.1 zero
  have block : tryBlock env (r.arrived (f.packet tsi key)) (min maxDatagram (f.packet tsi key).length) = result := by
    rw [tryBlock, parse_packet sendable session held]
    change (if tsi = r.tsi then _ else _ : HandlerResult) = _
    rw [if_pos ready.tsi.symm, handlePacket, idle, HandlerResult.andThen_of_ok rfl, List.nil_append, handled]
  have handler : r.handleReceiveFrom env (f.packet tsi key) =
      { state := { result.state with armed := true }, seen := result.seen } := by
    unfold handleReceiveFrom
    change (if r.running then _ else _ : HandlerResult) = _
    rw [if_pos ready.running, block]
    rcases ends with ok | ⟨what, threw⟩
    · simp only [ok]
    · simp only [threw]
  simp only [receiver, if_pos ready.armed, handler]

/-- A packet of a file that is gone or complete is left. -/
theorem step_late (ready : r.Ready tsi) (sendable : f.Sendable env tsi) (session : tsi < 2 ^ 16) (held : f.Holds key)
    (late : ∀ g, r.files.find? f.entry.toi = some g → g.complete = true) :
    ∃ r', (receiver env).step r (.datagram (f.packet tsi key)) = some (r', []) ∧ r'.Ready tsi ∧ r'.files = r.files := by
  have handled : receiveSymbols env (r.arrived (f.packet tsi key)) (dataPacket tsi f)
      (min maxDatagram (f.packet tsi key).length) = { state := r.arrived (f.packet tsi key) } := by
    cases found : r.files.find? f.entry.toi with
    | none =>
      have absent : (r.arrived (f.packet tsi key)).files.find? (dataPacket tsi f).toi = none := found
      rw [receiveSymbols, absent]
    | some g =>
      have held : (r.arrived (f.packet tsi key)).files.find? (dataPacket tsi f).toi = some g := found
      rw [receiveSymbols, held]
      exact if_pos (late g found)
  exact ⟨_, step_packet ready sendable session held handled (Or.inl rfl),
    ⟨rfl, ready.running, ready.completionCb, ready.tsi⟩, rfl⟩

/-- The symbol of a packet is put into the file. -/
theorem receiveSymbols_packet {received : List (Nat × Nat)} (sendable : f.Sendable env tsi) (session : tsi < 2 ^ 16)
    (holds : f.Holds key) (found : r.files.find? f.entry.toi = some g) (holding : File.Holding f received g)
    (incomplete : g.complete = false) : ∃ g' symbols, File.Holding f (key :: received) g' ∧
      receiveSymbols env (r.arrived (f.packet tsi key)) (dataPacket tsi f)
          (min maxDatagram (f.packet tsi key).length) = HandlerResult.andThen {
        state := (r.arrived (f.packet tsi key)).setFile f.entry.toi g'
        seen := [.put f.entry.toi 0 symbols] } fun r =>
          if g'.complete then completeFile env r f.entry.toi 0 g' else { state := r } := by
  have fits := sendable.whole key holds
  have sameOti : g.fecOti = f.fecOti := by rw [File.fecOti, File.fecOti, holding.entry]
  have data := arrived_data r fits
  have parsed := parse_packet sendable session holds r
  obtain ⟨g', run, next⟩ := holding.receivePacket sendable.tiled sendable.digest holds tsi
    (r.data.drop (f.packet tsi key).length)
  rw [min_eq_right fits] at parsed ⊢
  cases cut : cutPacket g.fecOti (f.packet tsi key ++ r.data.drop (f.packet tsi key).length)
      (f.packet tsi key).length with
  | error e => simp [receivePacket, cut] at run
  | ok symbols =>
    refine ⟨g', symbols, next, ?_⟩
    have put : g.putSymbols env symbols = (g', .ok ()) := by simpa only [receivePacket, cut] using run
    have payload : EncodingSymbol.fromPayload
        ((r.arrived (f.packet tsi key)).data.drop (dataPacket tsi f).headerLength)
        (subSize (f.packet tsi key).length (dataPacket tsi f).headerLength) g.fecOti
        (dataPacket tsi f).contentEncoding = .ok symbols := by
      rw [← data, cutPacket, parsed, ok_bind] at cut
      exact cut
    have held : (r.arrived (f.packet tsi key)).files.find? (dataPacket tsi f).toi = some g := found
    simp only [receiveSymbols, held, incomplete, Bool.false_eq_true, if_false, payload, put]
    rfl

/-- What completing a file of the application does. -/
structure Completes (env : Env) (r : Receiver) (toi : Nat) (file : File) (result : HandlerResult) : Prop where
  ends : result.ending = .ok () ∨ ∃ what, result.ending = .error (.throws (.exception what))
  setup : result.state.running = r.running ∧ result.state.completionCb = r.completionCb ∧ result.state.tsi = r.tsi
  others : ∀ other, other ≠ toi → result.state.files.find? other =
    (r.files.find? other).filter fun h => h.entry.contentLocation ≠ file.entry.contentLocation
  done : ∀ h, result.state.files.find? toi = some h → h.complete = true
  delivered : ∀ other h, .delivered other h ∈ result.seen ↔ other = toi ∧ file.decode env = (h, .ok ())

theorem completeFile_completes {toi instanceId : Nat} {file : File} (callback : r.completionCb = true)
    (data : toi ≠ 0) (complete : file.complete = true)
    (decodes : (file.decode env).2 = .ok () ∨ ∃ what, (file.decode env).2 = .error (.throws (.exception what))) :
    Completes env r toi file (completeFile env r toi instanceId file) := by
  have kept : ∀ other, other ≠ toi → (r.files.filter fun other f =>
      other = toi ∨ f.entry.contentLocation ≠ file.entry.contentLocation).find? other =
      (r.files.find? other).filter fun h => h.entry.contentLocation ≠ file.entry.contentLocation := by
    intro other apart
    rw [SortedMap.find?_filter]
    simp only [apart, false_or]
  unfold completeFile
  cases decoding : file.decode env with
  | mk decoded ending =>
    have same : ∀ e, ending = .error e → decoded.complete = true := by
      rintro e rfl
      have left := File.decode_complete (show (file.decode env).2 = .error e by rw [decoding])
      rw [decoding] at left
      exact left.trans complete
    rw [decoding] at decodes
    dsimp only at decodes ⊢
    rcases decodes with rfl | ⟨what, rfl⟩
    · rw [HandlerResult.andThen_of_ok rfl, if_neg data]
      simp only [setFile, callback, if_true, List.nil_append]
      refine ⟨Or.inl rfl, ⟨rfl, callback.symm, rfl⟩, fun other apart => ?_, fun h found => ?_, fun other h => ?_⟩
      · simp only [eraseFile, SortedMap.find?_erase, SortedMap.find?_insertOrAssign, if_neg apart]
        exact kept other apart
      · simp [eraseFile] at found
      · simp [decoding, eq_comm]
    · rw [HandlerResult.andThen_of_error rfl]
      refine ⟨Or.inr ⟨what, rfl⟩, ⟨rfl, rfl, rfl⟩, fun other apart => ?_, fun h found => ?_, fun other h => ?_⟩
      · rw [find?_setFile, if_neg apart]
        exact kept other apart
      · rw [find?_setFile, if_pos rfl] at found
        exact Option.some.inj found ▸ same _ rfl
      · simp [decoding]

/-- The step of a packet whose symbol its file takes. -/
theorem step_stored {received : List (Nat × Nat)} (ready : r.Ready tsi) (sendable : f.Sendable env tsi)
    (session : tsi < 2 ^ 16) (holds : f.Holds key) (found : r.files.find? f.entry.toi = some g)
    (holding : File.Holding f received g) (incomplete : g.complete = false) :
    ∃ g', File.Holding f (key :: received) g' ∧ ∃ result r', r'.Ready tsi ∧
      (receiver env).step r (.datagram (f.packet tsi key)) = some (r', result.seen) ∧ r'.files = result.state.files ∧
      ((g'.complete = false ∧ result.state.files = (r.setFile f.entry.toi g').files ∧
        ∀ toi h, .delivered toi h ∉ result.seen) ∨
      (g'.complete = true ∧ Completes env (r.setFile f.entry.toi g') f.entry.toi g' result)) := by
  obtain ⟨g', symbols, next, handled⟩ := receiveSymbols_packet sendable session holds found holding
    incomplete
  rw [HandlerResult.andThen_of_ok rfl] at handled
  refine ⟨g', next, ?_⟩
  obtain ⟨result, isResult⟩ : ∃ result, receiveSymbols env (r.arrived (f.packet tsi key)) (dataPacket tsi f)
    (min maxDatagram (f.packet tsi key).length) = result := ⟨_, rfl⟩
  rw [isResult] at handled
  cases complete : g'.complete with
  | false =>
    simp only [complete, Bool.false_eq_true, if_false] at handled
    have ends : result.ending = .ok () := by rw [handled]
    refine ⟨result, _, ⟨rfl, ?_, ?_, ?_⟩, step_packet ready sendable session holds isResult (Or.inl ends), rfl,
      Or.inl ⟨rfl, ?_, ?_⟩⟩
    · rw [handled]; exact ready.running
    · rw [handled]; exact ready.completionCb
    · rw [handled]; exact ready.tsi
    · rw [handled]; rfl
    · rw [handled]
      intro toi h seen
      simp at seen
  | true =>
    rw [complete, if_pos rfl] at handled
    have content := next.buffer_eq sendable.tiled
      ((next.complete_iff (sendable.new.nonempty sendable.nonempty)).mp complete)
    have completes : Completes env ((r.arrived (f.packet tsi key)).setFile f.entry.toi g') f.entry.toi g'
        (completeFile env ((r.arrived (f.packet tsi key)).setFile f.entry.toi g') f.entry.toi 0 g') :=
      completeFile_completes ready.completionCb sendable.data.1 complete (sendable.decodes g' next.entry content)
    have ends : result.ending = .ok () ∨ ∃ what, result.ending = .error (.throws (.exception what)) := by
      rw [handled]; exact completes.ends
    refine ⟨result, _, ⟨rfl, ?_, ?_, ?_⟩, step_packet ready sendable session holds isResult ends, rfl,
      Or.inr ⟨rfl, ?_⟩⟩
    · rw [handled]; exact completes.setup.1.trans ready.running
    · rw [handled]; exact completes.setup.2.1.trans ready.completionCb
    · rw [handled]; exact completes.setup.2.2.trans ready.tsi
    · rw [handled]
      exact ⟨completes.ends, completes.setup, completes.others, completes.done, by simpa using completes.delivered⟩

/-- A file goes to the application with some content. -/
def DeliveredIn (out : List ReceiverOutput) (f : File) (content : List UInt8) : Prop :=
  ∃ g, .delivered f.entry.toi g ∈ out ∧ g.buffer = content

/-- How the files of a table are held after packets of them: as long as no file of
its location is complete, each with the symbols that arrived. -/
structure Tracking (tsi : Nat) (sent : List File) (past : List Arrival) (r : Receiver) : Prop where
  ready : r.Ready tsi
  held : ∀ f ∈ sent, ¬ Settled sent past f.entry.contentLocation → ∃ g received,
    r.files.find? f.entry.toi = some g ∧ File.Holding f received g ∧
      ∀ key, f.Holds key → (key ∈ received ↔ ⟨f, key⟩ ∈ past)
  late : ∀ f ∈ sent, Settled sent past f.entry.contentLocation →
    ∀ g, r.files.find? f.entry.toi = some g → g.complete = true

/-- The files of a table have TOIs of their own and can be received. -/
structure Table (env : Env) (tsi : Nat) (sent : List File) : Prop where
  session : tsi < 2 ^ 16
  distinct : (sent.map fun f => f.entry.toi).Nodup
  sendable : ∀ f ∈ sent, f.Sendable env tsi

variable {sent : List File} {past : List Arrival} {a : Arrival}

theorem Table.eq_of_toi (table : Table env tsi sent) (listed : f ∈ sent) (listed' : g ∈ sent)
    (same : f.entry.toi = g.entry.toi) : f = g :=
  List.inj_on_of_nodup_map table.distinct listed listed' same

/-- What a packet does to the files of a table. -/
structure Tracks (env : Env) (tsi : Nat) (sent : List File) (past : List Arrival) (a : Arrival) (r r' : Receiver)
    (out : List ReceiverOutput) : Prop where
  step : (receiver env).step r (a.event tsi) = some (r', out)
  tracking : Tracking tsi sent (past ++ [a]) r'
  delivered : ∀ f ∈ sent, ∀ content, f.Yields env content →
    (DeliveredIn out f content ↔ ¬ Settled sent past f.entry.contentLocation ∧ Arrived (past ++ [a]) f)

theorem Tracking.step_late (tracking : Tracking tsi sent past r) (table : Table env tsi sent) (listed : a.file ∈ sent)
    (holds : a.file.Holds a.key) (settled : Settled sent past a.file.entry.contentLocation) :
    ∃ r' out, Tracks env tsi sent past a r r' out := by
  obtain ⟨r', step, ready, files⟩ := Receiver.step_late tracking.ready (table.sendable _ listed) table.session holds
    (tracking.late _ listed settled)
  have same : ∀ f ∈ sent, Settled sent (past ++ [a]) f.entry.contentLocation →
      Settled sent past f.entry.contentLocation := by
    intro f _ now
    by_contra before
    exact before ((now.of_concat before).1 ▸ settled)
  refine ⟨r', [], step, ⟨ready, fun f inTable unsettled => ?_, fun f inTable now => ?_⟩, fun f inTable _ _ => ?_⟩
  · rw [files]
    obtain ⟨g, received, found, holding, known⟩ := tracking.held f inTable fun before => unsettled (before.append _)
    refine ⟨g, received, found, holding, fun key held => (known key held).trans (mem_concat_of_ne ?_).symm⟩
    rintro rfl
    exact unsettled (settled.append _)
  · rw [files]
    exact tracking.late f inTable (same f inTable now)
  · refine iff_of_false (by simp [DeliveredIn]) ?_
    rintro ⟨unsettled, now⟩
    obtain rfl := now.of_concat fun before => unsettled ⟨f, inTable, rfl, before⟩
    exact unsettled settled

theorem Tracking.step (tracking : Tracking tsi sent past r) (table : Table env tsi sent) (listed : a.file ∈ sent)
    (holds : a.file.Holds a.key) : ∃ r' out, Tracks env tsi sent past a r r' out := by
  by_cases settled : Settled sent past a.file.entry.contentLocation
  · exact tracking.step_late table listed holds settled
  have sendable := table.sendable _ listed
  obtain ⟨g, received, found, holding, known⟩ := tracking.held _ listed settled
  have symbols := sendable.new.nonempty sendable.nonempty
  have incomplete : g.complete = false := by
    rw [Bool.eq_false_iff, Ne, holding.complete_iff symbols]
    intro all
    exact settled ⟨a.file, listed, rfl, fun key held => (known key held).mp (all key held)⟩
  obtain ⟨g', next, result, r', ready, step, files, outcome⟩ := step_stored tracking.ready sendable table.session holds
    found holding incomplete
  have known' : ∀ key, a.file.Holds key → (key ∈ a.key :: received ↔ ⟨a.file, key⟩ ∈ past ++ [a]) := by
    intro key held
    rw [List.mem_cons, known key held, List.mem_append, List.mem_singleton, or_comm]
    exact or_congr_right ⟨fun same => same ▸ rfl, fun same => congrArg Arrival.key same⟩
  have complete_iff : g'.complete = true ↔ Arrived (past ++ [a]) a.file := by
    rw [next.complete_iff symbols]
    exact forall₂_congr known'
  -- what arrived of the other files, and that they are held apart
  have others : ∀ f ∈ sent, f ≠ a.file → f.entry.toi ≠ a.file.entry.toi := fun f inTable other same =>
    other (table.eq_of_toi inTable listed same)
  have location : g'.entry.contentLocation = a.file.entry.contentLocation := by rw [next.entry]
  rcases outcome with ⟨still, stored, silent⟩ | ⟨complete, completes⟩
  · -- the file is not complete yet
    have unfinished : ¬ Arrived (past ++ [a]) a.file := by rw [← complete_iff, still]; simp
    have here : ∀ toi, r'.files.find? toi = if toi = a.file.entry.toi then some g' else r.files.find? toi := by
      intro toi
      rw [files, stored, find?_setFile]
    have same : ∀ location, Settled sent (past ++ [a]) location → Settled sent past location := by
      intro location now
      by_contra before
      exact unfinished (now.of_concat before).2
    refine ⟨r', result.seen, step, ⟨ready, fun f inTable unsettled => ?_, fun f inTable now h heldNow => ?_⟩,
      fun f inTable _ _ => iff_of_false ?_ ?_⟩
    · by_cases is : f = a.file
      · subst is
        exact ⟨g', _, by rw [here, if_pos rfl], next, known'⟩
      · obtain ⟨h, old, found', holding', know⟩ := tracking.held f inTable fun before => unsettled (before.append _)
        exact ⟨h, old, by rw [here, if_neg (others f inTable is), found'], holding',
          fun key held => (know key held).trans (mem_concat_of_ne is).symm⟩
    · have before := same _ now
      have apart : f ≠ a.file := by
        rintro rfl
        exact settled before
      rw [here, if_neg (others f inTable apart)] at heldNow
      exact tracking.late f inTable before h heldNow
    · rintro ⟨h, seen, _⟩
      exact silent _ h seen
    · rintro ⟨unsettled, now⟩
      obtain rfl := now.of_concat fun before => unsettled ⟨f, inTable, rfl, before⟩
      exact unfinished now
  · -- the file is complete, and the others of its location are dropped
    have finished : Arrived (past ++ [a]) a.file := complete_iff.mp complete
    have left : ∀ f ∈ sent, f ≠ a.file → r'.files.find? f.entry.toi =
        (r.files.find? f.entry.toi).filter fun h => h.entry.contentLocation ≠ a.file.entry.contentLocation := by
      intro f inTable other
      rw [files, completes.others _ (others f inTable other), find?_setFile, if_neg (others f inTable other), location]
    refine ⟨r', result.seen, step, ⟨ready, fun f inTable unsettled => ?_, fun f inTable now h heldNow => ?_⟩,
      fun f inTable content yields => ?_⟩
    · have elsewhere : f.entry.contentLocation ≠ a.file.entry.contentLocation := fun same =>
        unsettled ⟨a.file, listed, same.symm, finished⟩
      have apart : f ≠ a.file := by
        rintro rfl
        exact elsewhere rfl
      obtain ⟨h, old, found', holding', know⟩ := tracking.held f inTable fun before => unsettled (before.append _)
      refine ⟨h, old, ?_, holding', fun key held => (know key held).trans (mem_concat_of_ne apart).symm⟩
      rw [left f inTable apart, found', Option.filter_some, if_pos (by rw [holding'.entry]; exact decide_eq_true elsewhere)]
    · by_cases is : f = a.file
      · subst is
        rw [files] at heldNow
        exact completes.done h heldNow
      · rw [left f inTable is, Option.filter_eq_some_iff] at heldNow
        by_cases before : Settled sent past f.entry.contentLocation
        · exact tracking.late f inTable before h heldNow.1
        · obtain ⟨h', _, found', holding', _⟩ := tracking.held f inTable before
          obtain rfl : h' = h := Option.some.inj (found'.symm.trans heldNow.1)
          have dropped := of_decide_eq_true heldNow.2
          rw [holding'.entry] at dropped
          exact absurd (now.of_concat before).1 dropped
    · by_cases is : f = a.file
      · subst is
        have buffer := next.buffer_eq sendable.tiled ((next.complete_iff symbols).mp complete)
        obtain ⟨h, decoded, same⟩ := yields g' next.entry buffer next.sound.plain
        exact iff_of_true ⟨h, (completes.delivered _ _).mpr ⟨rfl, decoded⟩, same⟩ ⟨settled, finished⟩
      · refine iff_of_false ?_ ?_
        · rintro ⟨h, seen, _⟩
          exact others f inTable is ((completes.delivered _ _).mp seen).1
        · rintro ⟨unsettled, now⟩
          exact is (now.of_concat fun before => unsettled ⟨f, inTable, rfl, before⟩)

/-- The packets of a run: a file is delivered by the packet that completes it,
when no file of its location was complete before. -/
theorem Tracking.run (tracking : Tracking tsi sent past r) (table : Table env tsi sent) {arrivals : List Arrival}
    (valid : ∀ a ∈ arrivals, a.file ∈ sent ∧ a.file.Holds a.key) :
    ∃ r' out, (receiver env).exec (fun _ _ => true) r (arrivals.map (Arrival.event tsi)) = some (r', out) ∧
      ∀ f ∈ sent, ∀ content, f.Yields env content → (DeliveredIn out f content ↔ ∃ front a, front ++ [a] <+: arrivals ∧
        ¬ Settled sent (past ++ front) f.entry.contentLocation ∧ Arrived (past ++ front ++ [a]) f) := by
  induction arrivals generalizing past r with
  | nil =>
    refine ⟨r, [], rfl, fun f _ _ _ => iff_of_false (by simp [DeliveredIn]) ?_⟩
    rintro ⟨front, a, isPrefix, _⟩
    simp at isPrefix
  | cons a rest ih =>
    obtain ⟨listed, holds⟩ := valid a List.mem_cons_self
    obtain ⟨r₁, out₁, tracks⟩ := tracking.step table listed holds
    obtain ⟨r', out, run, delivered⟩ := ih tracks.tracking fun b member => valid b (List.mem_cons_of_mem _ member)
    refine ⟨r', out₁ ++ out, ?_, fun f inTable content yields => ?_⟩
    · simp only [List.map_cons, Machine.exec, if_true, tracks.step, run]
    · have split : DeliveredIn (out₁ ++ out) f content ↔ DeliveredIn out₁ f content ∨ DeliveredIn out f content := by
        simp only [DeliveredIn, List.mem_append, or_and_right, exists_or]
      rw [split, tracks.delivered f inTable content yields, delivered f inTable content yields]
      constructor
      · rintro (⟨unsettled, now⟩ | ⟨front, b, ⟨tail, rfl⟩, unsettled, now⟩)
        · exact ⟨[], a, ⟨rest, rfl⟩, by simpa using unsettled, by simpa using now⟩
        · refine ⟨a :: front, b, ⟨tail, by simp⟩, by simpa using unsettled, by simpa using now⟩
      · rintro ⟨front, b, isPrefix, unsettled, now⟩
        cases front with
        | nil =>
          obtain ⟨tail, same⟩ := isPrefix
          obtain ⟨rfl, _⟩ := List.cons.inj same
          exact Or.inl ⟨by simpa using unsettled, by simpa using now⟩
        | cons first front =>
          obtain ⟨tail, same⟩ := isPrefix
          obtain ⟨rfl, rest'⟩ := List.cons.inj same
          exact Or.inr ⟨front, b, ⟨tail, by simpa using rest'⟩, by simpa using unsettled, by simpa using now⟩

end Receiver

/-- From some packets on, the file is complete as soon as any file of its location is. -/
def CompletesFirst (sent : List File) (past arrivals : List Arrival) (f : File) : Prop :=
  ∀ g ∈ sent, g.entry.contentLocation = f.entry.contentLocation → ∀ front, front <+: arrivals →
    Arrived (past ++ front) g → Arrived (past ++ front) f

/-- A file completes first exactly when one packet completes it and no file of its
location was complete before. -/
theorem completesFirst_iff {sent : List File} {past arrivals : List Arrival} {f : File} (before : ¬ Arrived past f)
    (all : Arrived (past ++ arrivals) f) :
    CompletesFirst sent past arrivals f ↔ ∃ front a, front ++ [a] <+: arrivals ∧
      ¬ Settled sent (past ++ front) f.entry.contentLocation ∧ Arrived (past ++ front ++ [a]) f := by
  constructor
  · intro first
    induction arrivals using List.reverseRecOn with
    | nil =>
      rw [List.append_nil] at all
      exact absurd all before
    | append_singleton front a ih =>
      by_cases earlier : Arrived (past ++ front) f
      · obtain ⟨front', b, isPrefix, rest⟩ := ih earlier fun g inTable same front' isPrefix =>
          first g inTable same front' (isPrefix.trans (List.prefix_append ..))
        exact ⟨front', b, isPrefix.trans (List.prefix_append ..), rest⟩
      · refine ⟨front, a, List.prefix_rfl, ?_, by rwa [List.append_assoc]⟩
        rintro ⟨g, inTable, same, arrived⟩
        exact earlier (first g inTable same front (List.prefix_append ..) arrived)
  · rintro ⟨front, a, isPrefix, unsettled, now⟩ g inTable same front' isFront arrived
    rw [List.append_assoc] at now
    rcases List.prefix_or_prefix_of_prefix isFront isPrefix with shorter | ⟨tail, rfl⟩
    · rcases List.prefix_concat_iff.mp shorter with rfl | ⟨tail, rfl⟩
      · exact now
      · refine absurd ⟨g, inTable, same, ?_⟩ unsettled
        rw [← List.append_assoc]
        exact arrived.append tail
    · rw [← List.append_assoc]
      exact now.append tail

namespace Receiver
variable {env : Env} {tsi : Nat} {r : Receiver}

/-- What a handler never changes. -/
def setup (r : Receiver) : Bool × Bool × Nat := (r.running, r.completionCb, r.tsi)

theorem startFiles_setup (env : Env) (r : Receiver) (entries : List FileEntry) :
    (startFiles env r entries).state.setup = r.setup := by
  induction entries generalizing r with
  | nil => rfl
  | cons fe rest ih =>
    rw [startFiles]
    split
    · exact ih r
    · split
      · rfl
      · exact HandlerResult.andThen_state (P := fun s => s.setup = r.setup) rfl fun _ => ih _

theorem parseFdt_setup (env : Env) (r : Receiver) (instanceId : Nat) (file : File) :
    (parseFdt env r instanceId file).state.setup = r.setup := by
  unfold parseFdt
  split
  · rfl
  · refine HandlerResult.andThen_state (P := fun s => s.setup = r.setup) rfl fun _ => ?_
    exact HandlerResult.andThen_state (P := fun s => s.setup = r.setup) (startFiles_setup ..)
      fun _ => startFiles_setup ..

theorem completeFile_setup (env : Env) (r : Receiver) (toi instanceId : Nat) (file : File) :
    (completeFile env r toi instanceId file).state.setup = r.setup := by
  unfold completeFile
  rcases file.decode env with ⟨decoded, ending⟩
  refine HandlerResult.andThen_state (P := fun s => s.setup = r.setup) rfl fun _ => ?_
  dsimp only
  split
  · exact parseFdt_setup ..
  · split <;> rfl

theorem handlePacket_setup (env : Env) (r : Receiver) (alc : AlcPacket) (len : Nat) :
    (handlePacket env r alc len).state.setup = r.setup := by
  unfold handlePacket
  have first : (startFdt env r alc).state.setup = r.setup := by
    rcases startFdt_cases env r alc with ⟨_, run⟩ | ⟨f, _, _, _, _, run⟩
    · rw [run]
    · rw [run]
      rfl
  refine HandlerResult.andThen_state (P := fun s => s.setup = r.setup) first fun _ => ?_
  rcases receiveSymbols_cases env (startFdt env r alc).state alc len with
    ⟨_, run⟩ | ⟨before, after, symbols, stored, _, run⟩
  · rw [run]
    exact first
  · rw [run]
    refine HandlerResult.andThen_state (P := fun s => s.setup = r.setup) first fun _ => ?_
    split
    · exact (completeFile_setup ..).trans first
    · exact first

/-- Where a table was processed, the handler came to its end. -/
def Finishes (result : HandlerResult) : Prop := ∀ table, .processed table ∈ result.seen → result.ending = .ok ()

theorem Finishes.andThen {result : HandlerResult} {rest : Receiver → HandlerResult}
    (quiet : ∀ table, .processed table ∉ result.seen) (later : Finishes (rest result.state)) :
    Finishes (result.andThen rest) := by
  intro table seen
  rcases HandlerResult.mem_andThen_seen.mp seen with early | ⟨ends, late⟩
  · exact absurd early (quiet table)
  · rw [HandlerResult.andThen_of_ok ends]
    exact later table late

theorem parseFdt_finishes (env : Env) (r : Receiver) (instanceId : Nat) (file : File) :
    Finishes (parseFdt env r instanceId file) := by
  unfold parseFdt
  split
  · intro table seen
    simp at seen
  · exact .andThen (by simp) (.andThen (fun _ => startFiles_processed) fun _ _ => rfl)

theorem handlePacket_finishes (env : Env) (r : Receiver) (alc : AlcPacket) (len : Nat) :
    Finishes (handlePacket env r alc len) := by
  have none : ∀ {s : Receiver} {ending}, Finishes { state := s, ending := ending } := fun _ seen => by simp at seen
  refine .andThen (fun table seen => by cases startFdt_seen seen) ?_
  rcases receiveSymbols_cases env (startFdt env r alc).state alc len with
    ⟨_, run⟩ | ⟨before, after, symbols, stored, _, run⟩
  · rw [run]
    exact none
  · rw [run]
    refine .andThen (by simp) ?_
    split
    · unfold completeFile
      rcases after.decode env with ⟨decoded, ending⟩
      refine .andThen (by simp) ?_
      dsimp only
      split
      · exact parseFdt_finishes env _ _ _
      · split
        · intro table seen
          simp at seen
        · exact none
    · exact none

theorem handleReceiveFrom_armed {datagram : List UInt8} (running : r.running = true)
    (ends : (tryBlock env (r.arrived datagram) (min maxDatagram datagram.length)).ending = .ok ()) :
    (r.handleReceiveFrom env datagram).state.armed = true := by
  unfold handleReceiveFrom
  change (if r.running then _ else _ : HandlerResult).state.armed = true
  rw [if_pos running]
  simp only [ends]

/-- After a table was processed the receiver waits for the next datagram. -/
theorem ready_of_processed {r' : Receiver} {datagram : List UInt8} {out : List ReceiverOutput}
    {fdt : FileDeliveryTable} (running : r.running = true) (callback : r.completionCb = true) (session : r.tsi = tsi)
    (step : (receiver env).step r (.datagram datagram) = some (r', out)) (processed : .processed fdt ∈ out) :
    r'.Ready tsi := by
  obtain ⟨_, rfl, outputs⟩ := receiver_step_datagram step
  have seen : .processed fdt ∈ (r.handleReceiveFrom env datagram).seen := by
    rcases outputs with ⟨_, rfl⟩ | ⟨what, _, rfl⟩
    · exact processed
    · simpa using processed
  have block : (r.handleReceiveFrom env datagram).state.armed = true ∧
      (r.handleReceiveFrom env datagram).state.setup = r.setup := by
    rcases handleReceiveFrom_cases env r datagram with ⟨stopped, _⟩ | ⟨_, armed, state, same⟩
    · rw [running] at stopped
      cases stopped
    rw [same] at seen
    rcases tryBlock_cases env (r.arrived datagram) (min maxDatagram datagram.length) with
      ⟨ending, run⟩ | ⟨alc, _, _, run⟩
    · rw [run] at seen
      simp at seen
    · rw [run] at seen state
      refine ⟨handleReceiveFrom_armed running (run ▸ handlePacket_finishes _ _ _ _ fdt seen), ?_⟩
      rw [state]
      exact handlePacket_setup env (r.arrived datagram) alc _
  obtain ⟨armed, same⟩ := block
  obtain ⟨runs, rest⟩ := Prod.mk.inj same
  obtain ⟨calls, mine⟩ := Prod.mk.inj rest
  exact ⟨armed, runs.trans running, calls.trans callback, mine.trans session⟩

/-- Of the files of a table that is to come, those that are held already are being
received for it, have got the packets of the past, and none is complete. -/
structure Begun (sent : List File) (past : List Arrival) (r : Receiver) : Prop where
  files : ∀ f ∈ sent, r.files.find? f.entry.toi = none ∧ (∀ key, ⟨f, key⟩ ∉ past) ∨
    f.entry.contentLocation ≠ r.fdtLocation ∧ ∃ g received, r.files.find? f.entry.toi = some g ∧
      File.Holding f received g ∧ ∀ key, f.Holds key → (key ∈ received ↔ ⟨f, key⟩ ∈ past)
  incomplete : ∀ f ∈ sent, ¬ Arrived past f

/-- After the table that lists them was processed, every file is held with the
packets of the past. -/
theorem tracking_of_processed {r' : Receiver} {datagram : List UInt8} {out : List ReceiverOutput}
    {fdt : FileDeliveryTable} {sent : List File} {past : List Arrival} (running : r.running = true)
    (callback : r.completionCb = true) (session : r.tsi = tsi)
    (step : (receiver env).step r (.datagram datagram) = some (r', out)) (processed : .processed fdt ∈ out)
    (lists : fdt.fileEntries = sent.map File.entry) (table : Table env tsi sent) (begun : r.Begun sent past) :
    Tracking tsi sent past r' := by
  obtain ⟨base, held, ends, files⟩ := step_processed step processed
  have distinct : (fdt.fileEntries.map FileEntry.toi).Nodup := by
    rw [lists, List.map_map]
    exact table.distinct
  refine ⟨ready_of_processed running callback session step processed, fun f inTable _ => ?_, fun f _ settled => ?_⟩
  · have sendable := table.sendable f inTable
    rcases begun.files f inTable with ⟨unheld, unheard⟩ | ⟨elsewhere, g, received, found, holding, known⟩
    · have absent : base.files.find? f.entry.toi = none := by
        rw [Option.eq_none_iff_forall_ne_some]
        intro g found
        have before := ((held _ g).mp found).2.1
        rw [unheld] at before
        cases before
      obtain ⟨g, made, found⟩ := startFiles_fresh distinct ends (by rw [lists]; exact List.mem_map_of_mem inTable)
        absent
      exact ⟨g, [], by rw [files, found], sendable.receiving made, by simpa using fun key _ => unheard key⟩
    · refine ⟨g, received, ?_, holding, known⟩
      rw [files]
      exact startFiles_kept ((held _ g).mpr ⟨sendable.data.1, found, by rwa [holding.entry]⟩)
  · obtain ⟨g, inTable, _, arrived⟩ := settled
    exact absurd arrived (begun.incomplete g inTable)

end Receiver

/-- A packet with one symbol is no longer than its header and a full symbol. -/
theorem File.Sound.length_packet {f : File} (sound : f.Sound) (data : f.entry.toi % 2 ^ 16 ≠ 0) {key : Nat × Nat}
    (holds : f.Holds key) (tsi : Nat) : (f.packet tsi key).length ≤ 16 + f.fecOti.encodingSymbolLength := by
  obtain ⟨symbol, found⟩ := holds
  obtain ⟨_, _, ⟨offset, start, _⟩, _⟩ := sound.symbol_spec found
  have slot : f.slot? key = some (some offset, symbol.length) := by rw [slot?_of_symbol? found, start]
  obtain ⟨_, length, _⟩ := sound.slotBytes_spec slot
  have short := (sound.slot_lengths slot).2
  have header := AlcPacket.length_header tsi f.entry.toi f.fecOti f.fdtInstanceId
  rw [if_neg data] at header
  rw [packet, List.length_append, header, List.length_append, List.length_append, length, Octets.length_be16,
    Octets.length_be16]
  omega

/-- An object of one symbol that fits a packet. -/
structure FecOti.OneSymbol (fecOti : FecOti) : Prop where
  scheme : fecOti.encodingId = .compactNoCode
  tile : fecOti.Tileable
  nonempty : 0 < fecOti.transferLength
  short : fecOti.encodingSymbolLength ≤ 2000
  blocks : (calculatePartitioning fecOti).nofSourceBlocks = 1
  symbols : (calculatePartitioning fecOti).blockLength 0 = 1

/-- The bytes `def` as a zlib stream. -/
def deflatedDef : List UInt8 := [0x78, 0x9c, 0x4b, 0x49, 0x4d, 3, 0, 2, 0x5f, 1, 0x30]

/-- Two versions of a file of three bytes, the newer one compressed. -/
def versions : SampleTable where
  files := [listedFile "1" "f" "3", listedFile "2" "f" "3" [("Transfer-Length", "11"), ("Content-Encoding", "deflate"),
    ("Content-MD5", base64Encode (Md5.digest [100, 101, 102])), ("FEC-OTI-Encoding-Symbol-Length", "16")]]

def versionsEnv : Env := tablesEnv [versions] [(15, deflatedDef, [100, 101, 102])]

def olderEntry : FileEntry where
  toi := 1
  contentLocation := "f"
  contentLength := 3
  fecOti := { transferLength := 3, encodingSymbolLength := 8, maxSourceBlockLength := 1 }

def newerEntry : FileEntry where
  toi := 2
  contentLocation := "f"
  contentLength := 3
  contentEncoding := "deflate"
  contentMd5 := base64Encode (Md5.digest [100, 101, 102])
  fecOti := { transferLength := 11, encodingSymbolLength := 16, maxSourceBlockLength := 1 }

def version (entry : FileEntry) (content : List UInt8) : File where
  entry := entry
  buffer := content
  sourceBlocks := entry.fecOti.blocksAt fun _ _ => false

def older : File := version olderEntry [97, 98, 99]

def newer : File := version newerEntry deflatedDef

def listeningReceiver : Receiver := { idleReceiver with completionCb := true }

section
variable {entry : FileEntry} {content : List UInt8} (one : entry.fecOti.OneSymbol)
include one

theorem version_sendable (data : entry.toi ≠ 0 ∧ entry.toi < 2 ^ 16) (length : content.length = entry.fecOti.transferLength)
    (digest : entry.contentMd5 = "" ∨ ∃ md5, md5.length = 16 ∧ entry.contentMd5 = base64Encode md5)
    (holds : (version entry content).DigestHolds versionsEnv)
    (decodes : ∀ g : File, g.entry = entry → g.buffer = content → (g.decode versionsEnv).2 = .ok ()) :
    (version entry content).Sendable versionsEnv 7 := by
  have layout := File.withBlocks_layout (f := { entry := entry, buffer := content }) one.tile one.nonempty
  obtain ⟨new, _⟩ := File.withBlocks_new layout one.scheme rfl length digest rfl
  have small : entry.fecOti.encodingSymbolLength ≤ 2000 := one.short
  exact {
    new := new
    digest := holds
    tile := one.tile
    small := show entry.fecOti.encodingSymbolLength < 2 ^ 31 by omega
    blocks := rfl
    nonempty := one.nonempty
    data := data
    whole := fun key held => (new.sound.length_packet (by
      change entry.toi % 2 ^ 16 ≠ 0
      omega) held 7).trans (show 16 + entry.fecOti.encodingSymbolLength ≤ 2048 by omega)
    decodes := fun g same buffer => Or.inl (decodes g same buffer) }

theorem version_holds {key : Nat × Nat} (holds : (version entry content).Holds key) : key = (0, 0) := by
  obtain ⟨symbol, found⟩ := holds
  obtain ⟨block, inFile, inBlock⟩ := File.symbol?_eq_some.mp found
  change (entry.fecOti.blocksAt fun _ _ => false).find? key.1 = some block at inFile
  rw [File.find?_blocksAt, one.blocks] at inFile
  split at inFile
  · next first =>
    obtain rfl := Option.some.inj inFile
    rw [File.find?_blockAt] at inBlock
    split at inBlock
    · next only =>
      have zero : key.1 = 0 := by omega
      rw [zero, one.symbols] at only
      exact Prod.ext zero (by omega)
    · cases inBlock
  · cases inFile

theorem version_arrived {arrivals : List Arrival} (here : ⟨version entry content, (0, 0)⟩ ∈ arrivals) :
    Arrived arrivals (version entry content) := by
  intro key holds
  rw [version_holds one holds]
  exact here

end

theorem older_one : olderEntry.fecOti.OneSymbol :=
  ⟨rfl, by decide +kernel, by decide, by decide, by decide +kernel, by decide +kernel⟩

theorem newer_one : newerEntry.fecOti.OneSymbol :=
  ⟨rfl, by decide +kernel, by decide, by decide, by decide +kernel, by decide +kernel⟩

theorem newer_yields : newer.Yields versionsEnv [100, 101, 102] :=
  File.yields_inflated (Or.inr rfl) (by decide +kernel) (by decide) rfl rfl

theorem versions_table : Receiver.Table versionsEnv 7 [older, newer] where
  session := by decide
  distinct := show [1, 2].Nodup by decide
  sendable := by
    intro f member
    rcases List.mem_pair.mp member with rfl | rfl
    · exact version_sendable older_one (by decide) rfl (Or.inl rfl) (fun _ stated => absurd rfl stated)
        fun g entry _ => by rw [File.decode_plain (by rw [entry]; rfl)]
    · refine version_sendable newer_one (by decide) rfl (Or.inr ⟨_, Md5.length_digest _, rfl⟩) (fun plain => absurd plain (show "deflate" ≠ "" by decide))
        fun g entry buffer => ?_
      cases undecoded : g.beenDecoded with
      | true => rw [File.decode, if_pos (Or.inl undecoded)]
      | false =>
        obtain ⟨h, run, _⟩ := newer_yields g entry buffer undecoded
        rw [run]

theorem versions_processed : ∃ r' out fdt, (receiver versionsEnv).step listeningReceiver
      (.datagram (fdtPacket 1 versions)) = some (r', out) ∧ .processed fdt ∈ out ∧
    fdt.fileEntries = [older, newer].map File.entry := by
  obtain ⟨⟨r', out⟩, step, seen⟩ := (Option.any_eq_true _ _).mp
    (show ((receiver versionsEnv).step listeningReceiver (.datagram (fdtPacket 1 versions))).any
      (fun result => result.2.any fun output => output.table?.any fun fdt =>
        decide (fdt.fileEntries = [olderEntry, newerEntry])) = true by decide +kernel)
  obtain ⟨fdt, member, lists⟩ := ReceiverOutput.processed_of_any _ seen
  exact ⟨r', out, fdt, step, member, of_decide_eq_true lists⟩

/-- The only packet of each version. -/
def olderPacket : Arrival := ⟨older, (0, 0)⟩

def newerPacket : Arrival := ⟨newer, (0, 0)⟩

theorem versions_valid {arrivals : List Arrival} (both : ∀ a ∈ arrivals, a = olderPacket ∨ a = newerPacket) :
    ∀ a ∈ arrivals, a.file ∈ [older, newer] ∧ a.file.Holds a.key := by
  have first : ∀ f ∈ [older, newer], f.Holds (0, 0) := by
    intro f inTable
    have sendable := versions_table.sendable f inTable
    obtain ⟨key, holds⟩ := sendable.new.nonempty sendable.nonempty
    rcases List.mem_pair.mp inTable with rfl | rfl
    · exact version_holds older_one holds ▸ holds
    · exact version_holds newer_one holds ▸ holds
  intro a member
  rcases both a member with rfl | rfl
  · exact ⟨by simp [olderPacket], first older (by simp)⟩
  · exact ⟨by simp [newerPacket], first newer (by simp)⟩

theorem versions_begun : listeningReceiver.Begun [older, newer] [] where
  files := fun _ _ => Or.inl ⟨rfl, by simp⟩
  incomplete := by
    intro g inTable arrived
    have sendable := versions_table.sendable g inTable
    obtain ⟨key, holds⟩ := sendable.new.nonempty sendable.nonempty
    exact absurd (arrived key holds) (by simp)

theorem newer_completesFirst : CompletesFirst [older, newer] [] [newerPacket, olderPacket] newer := by
  rintro g inTable _ front ⟨rest, same⟩ arrived
  cases front with
  | nil => exact absurd arrived (versions_begun.incomplete g inTable)
  | cons first later =>
    obtain ⟨rfl, _⟩ := List.cons.inj same
    exact version_arrived newer_one List.mem_cons_self

end Libflute

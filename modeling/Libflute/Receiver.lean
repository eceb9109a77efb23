import Libflute.AlcPacket
import Libflute.File
import Libflute.Library.Run

/-! The receiver as a machine: its steps are the handler of a datagram and the
calls of the application. -/

namespace Libflute

/-- The size of the receive buffer. -/
def maxDatagram : Nat := 2048

structure Receiver where
  tsi : Nat
  files : SortedMap Nat File := .empty
  fdt : Option FileDeliveryTable := none
  completionCb : Bool := false
  running : Bool := true
  /-- A receive is pending on the socket. -/
  armed : Bool := true
  /-- The receive buffer: the last datagram and what earlier ones left behind it. -/
  data : List UInt8
  data_length : data.length = maxDatagram

/-- What an observer sees of a step. -/
inductive ReceiverOutput
  | created (fecOti : FecOti) (instanceId : Nat)
  | put (toi instanceId : Nat) (symbols : List EncodingSymbol)
  | delivered (toi : Nat) (file : File)
  | parsing (instanceId : Nat) (buffer : List UInt8)
  | started (toi : Nat)
  | processed (table : FileDeliveryTable)
  | escaped (what : Thrown)

inductive ReceiverEvent
  | datagram (datagram : List UInt8)
  | receiveError
  | removeExpiredFiles (expired : List Nat)
  | removeFileWithContentLocation (cl : String)
  | registerCompletionCallback (callable : Bool)
  | stop

/-- Where the handler leaves the receiver, what is seen of it, and how it ends. -/
structure HandlerResult where
  state : Receiver
  seen : List ReceiverOutput := []
  ending : Outcome Unit := .ok ()

/-- The code behind a part of the handler runs when that part does not throw. -/
def HandlerResult.andThen (result : HandlerResult) (rest : Receiver → HandlerResult) : HandlerResult :=
  match result.ending with
  | .error _ => result
  | .ok () =>
    let later := rest result.state
    { later with seen := result.seen ++ later.seen }

namespace Receiver

def setFile (r : Receiver) (toi : Nat) (f : File) : Receiver := { r with files := r.files.insertOrAssign toi f }

def eraseFile (r : Receiver) (toi : Nat) : Receiver := { r with files := r.files.erase toi }

/-- The loop over the entries of a new table. -/
def startFiles (env : Env) (r : Receiver) : List FileEntry → HandlerResult
  | [] => { state := r }
  | fileEntry :: rest =>
    if r.files.contains fileEntry.toi then startFiles env r rest
    else
      match File.ofEntry env fileEntry with
      | .error e => { state := r, ending := .error e }
      | .ok f =>
        HandlerResult.andThen {
          state := { r with files := r.files.insert fileEntry.toi f }
          seen := [.started fileEntry.toi] } fun r => startFiles env r rest

/-- Parsing a complete FDT and starting reception of the files it lists. -/
def parseFdt (env : Env) (r : Receiver) (instanceId : Nat) (file : File) : HandlerResult :=
  match readBytes file.buffer file.length >>= FileDeliveryTable.parse env instanceId with
  | .error e => { state := r, seen := [.parsing instanceId file.buffer], ending := .error e }
  | .ok table =>
    HandlerResult.andThen {
      state := { r with fdt := some table }.eraseFile 0
      seen := [.parsing instanceId file.buffer] } fun r =>
        (startFiles env r table.fileEntries).andThen fun r => { state := r, seen := [.processed table] }

/-- What follows the symbol that completes a file: files with its location are
dropped, and it is decoded and delivered or parsed. -/
def completeFile (env : Env) (r : Receiver) (toi instanceId : Nat) (file : File) : HandlerResult :=
  let r := { r with
    files := r.files.filter fun other f => other = toi ∨ f.entry.contentLocation ≠ file.entry.contentLocation }
  let (file, decoded) := file.decode env
  HandlerResult.andThen { state := r.setFile toi file, ending := decoded } fun r =>
    if toi = 0 then parseFdt env r instanceId file
    else if r.completionCb then { state := r.eraseFile toi, seen := [.delivered toi file] }
    else { state := r }

/-- The file of a new FDT instance, made from EXT_FTI. -/
def startFdt (env : Env) (r : Receiver) (alc : AlcPacket) : HandlerResult :=
  if alc.toi = 0 ∧ r.fdt.all (fun table => table.instanceId ≠ alc.fdtInstanceId) ∧ r.files.contains 0 = false then
    match File.ofEntry env { contentLength := toU32 alc.fecOti.transferLength, fecOti := alc.fecOti } with
    | .error e => { state := r, ending := .error e }
    | .ok f => {
        state := { r with files := r.files.insert 0 f }
        seen := [.created alc.fecOti alc.fdtInstanceId] }
  else { state := r }

/-- The symbols of a packet go to the file of its TOI. -/
def receiveSymbols (env : Env) (r : Receiver) (alc : AlcPacket) (len : Nat) : HandlerResult :=
  match r.files.find? alc.toi with
  | none => { state := r }
  | some f =>
    if f.complete then { state := r }
    else
      match EncodingSymbol.fromPayload (r.data.drop alc.headerLength) (subSize len alc.headerLength) f.fecOti
          alc.contentEncoding with
      | .error e => { state := r, ending := .error e }
      | .ok symbols =>
        let (f, stored) := f.putSymbols env symbols
        HandlerResult.andThen {
          state := r.setFile alc.toi f
          seen := [.put alc.toi alc.fdtInstanceId symbols]
          ending := stored } fun r =>
            if f.complete then completeFile env r alc.toi alc.fdtInstanceId f else { state := r }

/-- What the handler does with a packet of its session. -/
def handlePacket (env : Env) (r : Receiver) (alc : AlcPacket) (len : Nat) : HandlerResult :=
  (startFdt env r alc).andThen fun r => receiveSymbols env r alc len

/-- A datagram in the receive buffer; what does not fit is cut off. -/
def arrived (r : Receiver) (datagram : List UInt8) : Receiver :=
  { r with
    armed := false
    data := datagram.take maxDatagram ++ r.data.drop (min maxDatagram datagram.length)
    data_length := by
      rw [List.length_append, List.length_take, List.length_drop, r.data_length]
      omega }

/-- What stands in the `try` block. -/
def tryBlock (env : Env) (r : Receiver) (len : Nat) : HandlerResult :=
  match AlcPacket.parse r.data len with
  | .error e => { state := r, ending := .error e }
  | .ok alc => if alc.tsi = r.tsi then handlePacket env r alc len else { state := r }

/-- `handle_receive_from` for a datagram. Only a `std::exception` is caught; the
next receive is not started when anything else is thrown. -/
def handleReceiveFrom (env : Env) (r : Receiver) (datagram : List UInt8) : HandlerResult :=
  let r := r.arrived datagram
  if r.running then
    let result := tryBlock env r (min maxDatagram datagram.length)
    match result.ending with
    | .ok () => { result with state := { result.state with armed := true } }
    | .error (.throws (.exception _)) => { state := { result.state with armed := true }, seen := result.seen }
    | .error _ => result
  else { state := r }

end Receiver

/-- The receiver and its application. A handler that never ends or leaves what
the language defines has no next state. -/
def receiver (env : Env) : Machine Receiver ReceiverEvent ReceiverOutput where
  init r := r.files = .empty ∧ r.fdt = none ∧ r.completionCb = false ∧ r.running = true ∧ r.armed = true
  step r
    | .datagram datagram =>
      if r.armed then
        let result := r.handleReceiveFrom env datagram
        match result.ending with
        | .ok () => some (result.state, result.seen)
        | .error (.throws what) => some (result.state, result.seen ++ [.escaped what])
        | .error _ => none
      else none
    | .receiveError => if r.armed then some ({ r with armed := false }, []) else none
    | .removeExpiredFiles expired => some ({ r with files := r.files.filter fun toi f =>
        ¬ (f.entry.contentLocation ≠ "bootstrap.multipart" ∧ toi ∈ expired) }, [])
    | .removeFileWithContentLocation cl =>
      some ({ r with files := r.files.filter fun _ f => f.entry.contentLocation ≠ cl }, [])
    | .registerCompletionCallback callable => some ({ r with completionCb := callable }, [])
    | .stop => some ({ r with running := false }, [])

end Libflute

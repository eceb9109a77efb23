import Libflute.AlcPacket
import Libflute.File
import Libflute.Library.Run
import Libflute.Transfer
import Libflute.Tunnel

/-! The transmitter as a machine: its steps are the critical sections of `send`
and the handlers of the event loop. -/

namespace Libflute

/-- A value of a FEC parameter, or the default where it is zero. -/
def orDefault (value default : Nat) : Nat := if value = 0 then default else value

namespace FileDescription

/-- The TSI and TOI `send` gives a description; a description of another session
and a new one get the next TOI. -/
def assign (fd : FileDescription) (tsi : Nat) (nextToi : UInt16) : FileDescription :=
  let old := if fd.tsi.any (· ≠ tsi) then 0 else fd.entry.toi
  { fd with
    tsi := some tsi
    entry := { fd.entry with toi := if old = 0 then nextToi.toNat else old }
    toi_lt := by
      have next := nextToi.toNat_lt
      have mine := fd.toi_lt
      have small : old < 2 ^ 16 := by
        simp only [old]
        split <;> omega
      change (if old = 0 then nextToi.toNat else old) < 2 ^ 16
      split <;> omega }

/-- Whether `send` takes a new TOI for a description. -/
def needsToi (fd : FileDescription) (tsi : Nat) : Bool := fd.tsi.any (· ≠ tsi) || fd.entry.toi == 0

def mergeFecOti (fd : FileDescription) (fecOti : FecOti) (noCode : fecOti.encodingId = .compactNoCode) :
    FileDescription :=
  { fd with
    entry := { fd.entry with
      fecOti := {
        encodingId := if fd.entry.fecOti.encodingId.code = 0 then fecOti.encodingId
          else fd.entry.fecOti.encodingId
        instanceId := orDefault fd.entry.fecOti.instanceId fecOti.instanceId
        transferLength := orDefault fd.entry.fecOti.transferLength fecOti.transferLength
        encodingSymbolLength := orDefault fd.entry.fecOti.encodingSymbolLength fecOti.encodingSymbolLength
        maxSourceBlockLength := orDefault fd.entry.fecOti.maxSourceBlockLength fecOti.maxSourceBlockLength
        maxNumberOfEncodingSymbols := orDefault fd.entry.fecOti.maxNumberOfEncodingSymbols
          fecOti.maxNumberOfEncodingSymbols } }
    noCode := by
      have mine := fd.noCode
      simp only
      split <;> assumption
    digest := fd.digest
    toi_lt := fd.toi_lt }

end FileDescription

/-- A send the socket has not completed yet, with what its handler captured. -/
structure InFlight where
  object : Nat
  symbols : List EncodingSymbol
  deriving DecidableEq

/-- What is left to do of a call of `send`: its critical sections and the code
between them. Files are named by their place among all files made. -/
inductive SendStep
  | storeFdt (object : Nat)
  | markSent
  | insertFile (toi object : Nat)
  | addEntry (object : Nat)
  | returns (toi object : Nat)
  deriving DecidableEq, Repr

structure Transmitter where
  tsi : Nat
  mtu : Nat
  endpoint : Endpoint
  sourceAddress : Option Nat
  tunnelEndpoint : Option Endpoint
  tunnelLocalAddress : Nat
  maxPayload : Nat
  fecOti : FecOti
  noCode : fecOti.encodingId = .compactNoCode
  fdt : FileDeliveryTable
  toi : UInt16 := 1
  files : SortedMap Nat Nat := .empty
  active : Bool
  completionCb : Bool := false
  /-- All files made so far; `files` and the socket share them. -/
  objects : List File := []
  socket : List InFlight := []
  /-- What the application's call of `send` has still to do. -/
  call : List SendStep := []

/-- What an observer sees of a step. -/
inductive TransmitterOutput
  | handed (object toi : Nat) (fecOti : FecOti) (symbols : List EncodingSymbol)
      (packet datagram : List UInt8)
  | marked (object : Nat) (symbols : List EncodingSymbol)
  | built (object : Nat) (table : FileDeliveryTable) (file : File)
  | stored (object : Nat)
  | erased (completed toi : Nat) (found : Option Nat)
  | transmitted (object toi : Nat)
  | returned (toi object : Nat)
  | threw (what : Thrown)

/-- The file of a packet that is handed to the socket. -/
def TransmitterOutput.handing : TransmitterOutput → Option Nat
  | .handed object _ _ _ _ _ => some object
  | _ => none

inductive TransmitterEvent
  | sendData (contentLocation contentType : String) (expires : Nat) (data : List UInt8) (now : Nat)
  | sendDescription (fd : FileDescription)
  | continueSend (now : Nat)
  | fdtSendTick (now : Nat)
  | sendNextPacket
  | socketCompleted (index : Nat) (ok : Bool) (now : Nat)
  | udpTunnelAddress (newTunnelEndpoint : Option Endpoint) (localAddress : Nat)
  | registerCompletionCallback
  | activate
  | deactivate

/-- The handlers of sends the socket has completed. -/
def TransmitterEvent.completes : TransmitterEvent → Bool
  | .socketCompleted .. => true
  | _ => false

/-- Where a step leaves the transmitter, what is seen of it, and how it ends. -/
structure StepResult (α : Type) where
  state : Transmitter
  seen : List TransmitterOutput := []
  ending : Outcome α

namespace Transmitter

def fdtRepeatInterval : Nat := 5

/-- The constructor. -/
def create (tsi mtu : Nat) (endpoint : Endpoint) (sourceAddress : Option Nat)
    (tunnelEndpoint : Option Endpoint) (tunnelLocalAddress : Nat) (fdtNamespace : FdtNamespace)
    (active : Bool) : Transmitter :=
  let maxPayload := (mtu + 2 ^ 32 - (20 + 8 + 32 + 4)) % 2 ^ 32
  let maxPayload := if tunnelEndpoint.isSome then (maxPayload + 2 ^ 32 - (20 + 8)) % 2 ^ 32 else maxPayload
  { tsi := tsi
    mtu := mtu
    endpoint := endpoint
    sourceAddress := sourceAddress
    tunnelEndpoint := tunnelEndpoint
    tunnelLocalAddress := tunnelLocalAddress
    maxPayload := maxPayload
    fecOti := sessionFecOti maxPayload
    noCode := rfl
    fdt := .create 1 (sessionFecOti maxPayload) fdtNamespace
    active := active }

/-- `_toi++`, kept from zero. -/
def nextToi (t : Transmitter) : UInt16 := if t.toi + 1 = 0 then 1 else t.toi + 1

def object? (t : Transmitter) (object : Nat) : Option File := t.objects[object]?

def alloc (t : Transmitter) (f : File) : Transmitter := { t with objects := t.objects ++ [f] }

def setObject (t : Transmitter) (object : Nat) (f : File) : Transmitter :=
  { t with objects := t.objects.set object f }

/-- The part of `send_fdt` before its critical section: the FDT file, if there
are files to list. -/
def buildFdt (env : Env) (t : Transmitter) (now : Nat) : StepResult (Option Nat) :=
  if t.fdt.fileEntries = [] then { state := t, ending := .ok none }
  else
    let expires := now + fdtRepeatInterval * 2
    let t := { t with fdt := t.fdt.setExpires expires }
    match File.ofData env 0 t.fecOti "" "" expires (t.fdt.print env) true with
    | .error e => { state := t, ending := .error e }
    | .ok f =>
      let f := f.setFdtInstanceId t.fdt.instanceId
      { state := t.alloc f
        seen := [.built t.objects.length t.fdt f]
        ending := .ok (some t.objects.length) }

/-- The critical section of `send_fdt`. -/
def storeFdt (t : Transmitter) (object : Nat) : Transmitter :=
  { t with files := t.files.insertOrAssign 0 object }

def markSent (t : Transmitter) : Transmitter := { t with fdt := t.fdt.sent }

/-- `send_fdt` as a handler of the event loop runs it. -/
def sendFdt (env : Env) (t : Transmitter) (now : Nat) : StepResult Unit :=
  let r := t.buildFdt env now
  match r.ending with
  | .error e => { state := r.state, seen := r.seen, ending := .error e }
  | .ok none => { state := r.state, seen := r.seen, ending := .ok () }
  | .ok (some object) => {
      state := (r.state.storeFdt object).markSent
      seen := r.seen ++ [.stored object]
      ending := .ok () }

/-- `send_fdt` as `send` runs it, followed by the rest of the call. -/
def startSendFdt (env : Env) (t : Transmitter) (now : Nat) (rest : List SendStep) : StepResult Unit :=
  let r := t.buildFdt env now
  match r.ending with
  | .error e => { state := { r.state with call := [] }, seen := r.seen, ending := .error e }
  | .ok none => { state := { r.state with call := rest }, seen := r.seen, ending := .ok () }
  | .ok (some object) => {
      state := { r.state with call := .storeFdt object :: .markSent :: rest }
      seen := r.seen
      ending := .ok () }

/-- The first overload of `send`, up to its first critical section. -/
def sendData (env : Env) (t : Transmitter) (contentLocation contentType : String) (expires : Nat)
    (data : List UInt8) (now : Nat) : StepResult Unit :=
  let toi := t.toi.toNat
  let t := { t with toi := t.nextToi }
  match File.ofData env toi t.fecOti contentLocation contentType expires data false with
  | .error e => { state := t, ending := .error e }
  | .ok f =>
    startSendFdt env { t.alloc f with fdt := t.fdt.add f.entry } now
      [.insertFile toi t.objects.length, .returns toi t.objects.length]

/-- The second overload of `send`, up to its first critical section. -/
def sendDescription (env : Env) (t : Transmitter) (fd : FileDescription) : StepResult Unit :=
  let fd' := (fd.assign t.tsi t.toi).mergeFecOti t.fecOti t.noCode
  let t := { t with toi := if fd.needsToi t.tsi then t.nextToi else t.toi }
  let object := t.objects.length
  match File.ofDescription env fd' with
  | .error e => { state := t, ending := .error e }
  | .ok f => {
      state := { t.alloc f with
        call := [.insertFile fd'.entry.toi object, .addEntry object, .returns fd'.entry.toi object] }
      ending := .ok () }

/-- The next part of the call of `send` that is under way. -/
def continueSend (env : Env) (t : Transmitter) (now : Nat) : Option (StepResult Unit) :=
  match t.call with
  | [] => none
  | .storeFdt object :: rest => some {
      state := { t.storeFdt object with call := rest }
      seen := [.stored object]
      ending := .ok () }
  | .markSent :: rest => some { state := { t.markSent with call := rest }, ending := .ok () }
  | .insertFile toi object :: rest => some {
      state := { t with files := t.files.insert toi object, call := rest }
      ending := .ok () }
  | .addEntry object :: rest =>
    match t.object? object with
    | none => none
    | some f => some (startSendFdt env { t with fdt := t.fdt.add f.entry } now rest)
  | .returns toi object :: rest => some {
      state := { t with call := rest }
      seen := [.returned toi object]
      ending := .ok () }

def fileTransmitted (env : Env) (t : Transmitter) (object toi now : Nat) : StepResult Unit :=
  let erased := TransmitterOutput.erased object toi (t.files.find? toi)
  let t := { t with files := t.files.erase toi }
  if toi = 0 then { state := t, seen := [erased], ending := .ok () }
  else
    let r := sendFdt env { t with fdt := t.fdt.remove toi } now
    match r.ending with
    | .error e => { state := r.state, seen := erased :: r.seen, ending := .error e }
    | .ok () => {
        state := r.state
        seen := erased :: (r.seen ++ if r.state.completionCb then [.transmitted object toi] else [])
        ending := .ok () }

/-- The handler of a send that the socket has completed. -/
def socketCompleted (env : Env) (t : Transmitter) (index : Nat) (ok : Bool) (now : Nat) :
    Option (StepResult Unit) :=
  match t.socket[index]? with
  | none => none
  | some sent =>
    let t := { t with socket := t.socket.eraseIdx index }
    if ok then
      match t.object? sent.object with
      | none => none
      | some f =>
        let marked := TransmitterOutput.marked sent.object sent.symbols
        match f.markCompleted env sent.symbols true with
        | (f, .error e) => some { state := t.setObject sent.object f, seen := [marked], ending := .error e }
        | (f, .ok ()) =>
          let t := t.setObject sent.object f
          if f.complete then
            let r := fileTransmitted env t sent.object f.entry.toi now
            some { r with seen := marked :: r.seen }
          else some { state := t, seen := [marked], ending := .ok () }
    else some { state := t, ending := .ok () }

/-- The first file in the queue that is not complete. -/
def nextFile (t : Transmitter) : Option (Nat × Nat) :=
  t.files.entries.find? fun e => (t.object? e.2).any fun f => !f.complete

/-- What goes to the socket for a packet. -/
def datagram (t : Transmitter) (packet : List UInt8) : List UInt8 :=
  if t.tunnelEndpoint.isSome then
    tunnelled t.endpoint (t.sourceAddress.getD t.tunnelLocalAddress) packet
  else packet

def sendNextPacket (t : Transmitter) : StepResult Unit :=
  if t.active then
    match t.nextFile with
    | none => { state := t, ending := .ok () }
    | some (_, object) =>
      match t.object? object with
      | none => { state := t, ending := .ok () }
      | some f =>
        match f.getNextSymbols t.maxPayload with
        | .error e => { state := t, ending := .error e }
        | .ok (symbols, f) =>
          let t := t.setObject object f
          if symbols = [] then { state := t, ending := .ok () }
          else
            match AlcPacket.build t.tsi f.entry.toi f.fecOti symbols t.maxPayload f.fdtInstanceId with
            | .error e => { state := t, ending := .error e }
            | .ok packet => {
                state := { t with socket := t.socket ++ [⟨object, symbols⟩] }
                seen := [.handed object f.entry.toi f.fecOti symbols packet (t.datagram packet)]
                ending := .ok () }
  else { state := t, ending := .ok () }

def udpTunnelAddress (t : Transmitter) (newTunnelEndpoint : Option Endpoint) (localAddress : Nat) :
    Transmitter :=
  { t with
    tunnelEndpoint := newTunnelEndpoint
    maxPayload :=
      if t.tunnelEndpoint.isSome = newTunnelEndpoint.isSome then t.maxPayload
      else if t.tunnelEndpoint.isSome then (t.maxPayload + (20 + 8)) % 2 ^ 32
      else (t.maxPayload + 2 ^ 32 - (20 + 8)) % 2 ^ 32
    tunnelLocalAddress := if newTunnelEndpoint.isSome then localAddress else t.tunnelLocalAddress }

def activate (t : Transmitter) : StepResult Unit :=
  if t.active then { state := t, ending := .ok () } else sendNextPacket { t with active := true }

def deactivate (t : Transmitter) : Transmitter := { t with active := false }

def perform (env : Env) (t : Transmitter) : TransmitterEvent → Option (StepResult Unit)
  | .sendData contentLocation contentType expires data now =>
    if t.call = [] then some (t.sendData env contentLocation contentType expires data now) else none
  | .sendDescription fd => if t.call = [] then some (t.sendDescription env fd) else none
  | .continueSend now => t.continueSend env now
  | .fdtSendTick now => some (if t.active then t.sendFdt env now else { state := t, ending := .ok () })
  | .sendNextPacket => some t.sendNextPacket
  | .socketCompleted index ok now => t.socketCompleted env index ok now
  | .udpTunnelAddress newTunnelEndpoint localAddress =>
    some { state := t.udpTunnelAddress newTunnelEndpoint localAddress, ending := .ok () }
  | .registerCompletionCallback => some { state := { t with completionCb := true }, ending := .ok () }
  | .activate => some t.activate
  | .deactivate => some { state := t.deactivate, ending := .ok () }

/-- An exception leaves the state as it is where it is thrown; a call that does
not end, or leaves what the language defines, has no step. -/
def step (env : Env) (t : Transmitter) (event : TransmitterEvent) :
    Option (Transmitter × List TransmitterOutput) :=
  match t.perform env event with
  | none => none
  | some r =>
    match r.ending with
    | .ok () => some (r.state, r.seen)
    | .error (.throws what) => some (r.state, r.seen ++ [.threw what])
    | .error _ => none

end Transmitter

/-- Runs of a transmitter from its constructor. -/
def transmitter (env : Env) : Machine Transmitter TransmitterEvent TransmitterOutput where
  init t := ∃ tsi mtu endpoint sourceAddress tunnelEndpoint tunnelLocalAddress fdtNamespace active,
    mtu < 2 ^ 16 ∧
    t = .create tsi mtu endpoint sourceAddress tunnelEndpoint tunnelLocalAddress fdtNamespace active
  step := Transmitter.step env

end Libflute

import Libflute.ReceiverSpec

/-! What holds of every file the receiver holds, and which files it delivers. -/

namespace Libflute
namespace Receiver
variable {env : Env} {r : Receiver} {K : Nat → File → Prop}

/-- What holds of every file with its TOI. -/
def AllFiles (K : Nat → File → Prop) (r : Receiver) : Prop := ∀ toi f, r.files.find? toi = some f → K toi f

/-- A packet of the session whose symbols were put into its file. -/
structure Puts (env : Env) (r : Receiver) (datagram : List UInt8) (alc : AlcPacket) (before after : File)
    (symbols : List EncodingSymbol) (stored : Outcome Unit) : Prop where
  running : r.running = true
  parsed : AlcPacket.parse (r.arrived datagram).data (min maxDatagram datagram.length) = .ok alc
  mine : alc.tsi = r.tsi
  starts : (startFdt env (r.arrived datagram) alc).ending = .ok ()
  stores : Stores env (startFdt env (r.arrived datagram) alc).state alc (min maxDatagram datagram.length) before after
    symbols stored

/-- The file that a datagram completes. -/
def completedBy (env : Env) (r : Receiver) (datagram : List UInt8) : Option File :=
  match AlcPacket.parse (r.arrived datagram).data (min maxDatagram datagram.length) with
  | .error _ => none
  | .ok alc =>
    if alc.tsi = r.tsi then
      let started := (startFdt env (r.arrived datagram) alc).state
      match started.files.find? alc.toi with
      | none => none
      | some f =>
        match EncodingSymbol.fromPayload (started.data.drop alc.headerLength)
            (subSize (min maxDatagram datagram.length) alc.headerLength) f.fecOti alc.contentEncoding with
        | .error _ => none
        | .ok symbols =>
          match f.putSymbols env symbols with
          | (after, .ok ()) => if after.complete then some after else none
          | (_, .error _) => none
    else none

theorem Puts.completedBy {datagram : List UInt8} {alc : AlcPacket} {before after : File}
    {symbols : List EncodingSymbol} (puts : Puts env r datagram alc before after symbols (.ok ()))
    (complete : after.complete = true) : r.completedBy env datagram = some after := by
  unfold Receiver.completedBy
  simp only [puts.parsed, if_pos puts.mine, puts.stores.found, puts.stores.payload, puts.stores.put, if_pos complete]

namespace AllFiles

theorem setFile (all : r.AllFiles K) {toi : Nat} {f : File} (holds : K toi f) : (r.setFile toi f).AllFiles K := by
  intro other g found
  rw [find?_setFile] at found
  split at found
  · next same =>
    obtain rfl := Option.some.inj found
    exact same ▸ holds
  · exact all other g found

theorem eraseFile (all : r.AllFiles K) (toi : Nat) : (r.eraseFile toi).AllFiles K := by
  intro other g found
  rw [find?_eraseFile] at found
  split at found
  · cases found
  · exact all other g found

theorem filter (all : r.AllFiles K) (keep : Nat → File → Bool) :
    AllFiles K { r with files := r.files.filter keep } := by
  intro toi f found
  change (r.files.filter keep).find? toi = some f at found
  rw [SortedMap.find?_filter, Option.filter_eq_some_iff] at found
  exact all toi f found.1

theorem insert (all : r.AllFiles K) {toi : Nat} {f : File} (holds : K toi f) :
    AllFiles K { r with files := r.files.insert toi f } := by
  intro other g found
  change (r.files.insert toi f).find? other = some g at found
  rw [SortedMap.find?_insert] at found
  split at found
  · next same =>
    cases held : r.files.find? toi with
    | none =>
      rw [held] at found
      obtain rfl := Option.some.inj found
      exact same ▸ holds
    | some old =>
      rw [held] at found
      obtain rfl := Option.some.inj found
      exact same ▸ all toi old held
  · exact all other g found

section made
variable (made : ∀ toi entry f, File.ofEntry env entry = .ok f → K toi f)
include made

theorem startFiles (all : r.AllFiles K) (entries : List FileEntry) :
    AllFiles K (startFiles env r entries).state := by
  induction entries generalizing r with
  | nil => exact all
  | cons fe rest ih =>
    rw [Receiver.startFiles]
    split
    · exact ih all
    · split
      · exact all
      · next f ok =>
        have inserted : AllFiles K { r with files := r.files.insert fe.toi f } := all.insert (made _ _ f ok)
        exact HandlerResult.andThen_state inserted fun _ => ih inserted

theorem startFdt (all : r.AllFiles K) (alc : AlcPacket) : AllFiles K (startFdt env r alc).state := by
  rcases startFdt_cases env r alc with ⟨_, run⟩ | ⟨f, _, _, _, ok, run⟩
  · rwa [run]
  · rw [run]
    exact all.insert (made _ _ f ok)

/-- The file that gets symbols was held, or has just been made. -/
theorem of_puts (all : r.AllFiles K) {datagram : List UInt8} {alc : AlcPacket} {before after : File}
    {symbols : List EncodingSymbol} {stored : Outcome Unit}
    (puts : Puts env r datagram alc before after symbols stored) : K alc.toi before :=
  startFdt made (r := r.arrived datagram) all alc _ _ puts.stores.found

theorem parseFdt (all : r.AllFiles K) (instanceId : Nat) (file : File) :
    AllFiles K (parseFdt env r instanceId file).state := by
  unfold Receiver.parseFdt
  cases readBytes file.buffer file.length >>= FileDeliveryTable.parse env instanceId with
  | error e => exact all
  | ok table =>
    have erased : AllFiles K ({ r with fdt := some table }.eraseFile 0) :=
      AllFiles.eraseFile (r := { r with fdt := some table }) all 0
    have started := startFiles made erased table.fileEntries
    exact HandlerResult.andThen_state erased fun _ => HandlerResult.andThen_state started fun _ => started

theorem completeFile (all : r.AllFiles K) {toi : Nat} (instanceId : Nat) {file : File}
    (decoded : K toi (file.decode env).1) : AllFiles K (completeFile env r toi instanceId file).state := by
  unfold Receiver.completeFile
  have stored := (all.filter fun other f => other = toi ∨
    f.entry.contentLocation ≠ file.entry.contentLocation).setFile decoded
  cases decoding : file.decode env with
  | mk decodedFile ending =>
    rw [decoding] at stored
    refine HandlerResult.andThen_state stored fun _ => ?_
    dsimp only
    by_cases zero : toi = 0
    · rw [if_pos zero]
      exact parseFdt made stored instanceId _
    · rw [if_neg zero]
      split
      · exact stored.eraseFile toi
      · exact stored

/-- Storing symbols and decoding what they complete are all that changes files. -/
theorem handleReceiveFrom (all : r.AllFiles K) {datagram : List UInt8}
    (puts : ∀ alc before after symbols stored, Puts env r datagram alc before after symbols stored →
      K alc.toi before → K alc.toi after ∧
        (stored = .ok () → after.complete = true → K alc.toi (after.decode env).1)) :
    AllFiles K (r.handleReceiveFrom env datagram).state := by
  have arrived : (r.arrived datagram).AllFiles K := all
  rcases handleReceiveFrom_cases env r datagram with ⟨_, run⟩ | ⟨running, armed, state, _⟩
  · rwa [run]
  rw [state]
  change AllFiles K (tryBlock env (r.arrived datagram) (min maxDatagram datagram.length)).state
  rcases tryBlock_cases env (r.arrived datagram) (min maxDatagram datagram.length) with
    ⟨ending, run⟩ | ⟨alc, parsed, mine, run⟩
  · rwa [run]
  rw [run]
  have started := startFdt made arrived alc
  refine HandlerResult.andThen_state started fun starts => ?_
  rcases receiveSymbols_cases env (Receiver.startFdt env (r.arrived datagram) alc).state alc
    (min maxDatagram datagram.length) with ⟨ending, run⟩ | ⟨before, after, symbols, stored, stores, run⟩
  · rwa [run]
  rw [run]
  obtain ⟨kept, decoded⟩ := puts alc before after symbols stored ⟨running, parsed, mine, starts, stores⟩
    (started _ _ stores.found)
  have set := started.setFile kept
  refine HandlerResult.andThen_state set fun ends => ?_
  dsimp only
  split
  · next complete => exact completeFile made set alc.fdtInstanceId (decoded ends complete)
  · exact set

/-- What holds of fresh files and survives symbols and decoding holds of every file of a run. -/
theorem step {r' : Receiver} {out : List ReceiverOutput} {event : ReceiverEvent} (all : r.AllFiles K)
    (step : (receiver env).step r event = some (r', out))
    (puts : ∀ datagram, event = .datagram datagram → ∀ alc before after symbols stored,
      Puts env r datagram alc before after symbols stored → K alc.toi before → K alc.toi after ∧
        (stored = .ok () → after.complete = true → K alc.toi (after.decode env).1)) : r'.AllFiles K := by
  cases event with
  | datagram datagram =>
    obtain ⟨_, rfl, _⟩ := receiver_step_datagram step
    exact handleReceiveFrom made all (puts datagram rfl)
  | receiveError =>
    simp only [receiver] at step
    split at step
    · obtain ⟨rfl, rfl⟩ := Prod.mk.inj (Option.some.inj step)
      exact all
    · cases step
  | removeExpiredFiles expired =>
    obtain ⟨rfl, rfl⟩ := Prod.mk.inj (Option.some.inj step)
    exact all.filter _
  | removeFileWithContentLocation cl =>
    obtain ⟨rfl, rfl⟩ := Prod.mk.inj (Option.some.inj step)
    exact all.filter _
  | registerCompletionCallback callable =>
    obtain ⟨rfl, rfl⟩ := Prod.mk.inj (Option.some.inj step)
    exact all
  | stop =>
    obtain ⟨rfl, rfl⟩ := Prod.mk.inj (Option.some.inj step)
    exact all

end made

end AllFiles

theorem startFiles_seen {entries : List FileEntry} {output : ReceiverOutput}
    (seen : output ∈ (startFiles env r entries).seen) : ∃ toi, output = .started toi := by
  induction entries generalizing r with
  | nil => cases seen
  | cons fe rest ih =>
    rw [startFiles] at seen
    split at seen
    · exact ih seen
    · split at seen
      · cases seen
      · rw [HandlerResult.andThen_of_ok rfl] at seen
        rcases List.mem_cons.mp seen with here | later
        · exact ⟨_, here⟩
        · exact ih later

theorem parseFdt_seen {instanceId : Nat} {file : File} {output : ReceiverOutput}
    (seen : output ∈ (parseFdt env r instanceId file).seen) :
    output = .parsing instanceId file.buffer ∨ (∃ toi, output = .started toi) ∨ ∃ table, output = .processed table := by
  unfold parseFdt at seen
  split at seen
  · exact Or.inl (List.mem_singleton.mp seen)
  · next table _ =>
    rw [HandlerResult.andThen_of_ok rfl, List.mem_append, HandlerResult.mem_andThen_seen] at seen
    rcases seen with early | started | ⟨_, last⟩
    · exact Or.inl (List.mem_singleton.mp early)
    · exact Or.inr (Or.inl (startFiles_seen started))
    · exact Or.inr (Or.inr ⟨table, List.mem_singleton.mp last⟩)

/-- What is seen of a file's completion. -/
theorem completeFile_seen {toi instanceId : Nat} {file : File} {output : ReceiverOutput}
    (seen : output ∈ (completeFile env r toi instanceId file).seen) : (file.decode env).2 = .ok () ∧
      ((toi ≠ 0 ∧ output = .delivered toi (file.decode env).1) ∨
        toi = 0 ∧ (output = .parsing instanceId (file.decode env).1.buffer ∨ (∃ toi, output = .started toi) ∨
          ∃ table, output = .processed table)) := by
  unfold completeFile at seen
  dsimp only at seen
  rw [HandlerResult.mem_andThen_seen] at seen
  rcases seen with early | ⟨ends, later⟩
  · cases early
  · refine ⟨ends, ?_⟩
    split at later
    · next zero => exact Or.inr ⟨zero, parseFdt_seen later⟩
    · next other =>
      split at later
      · exact Or.inl ⟨other, List.mem_singleton.mp later⟩
      · cases later

/-- What is seen of a datagram. -/
theorem handleReceiveFrom_seen {datagram : List UInt8} {output : ReceiverOutput}
    (seen : output ∈ (r.handleReceiveFrom env datagram).seen) :
    (∃ alc, AlcPacket.parse (r.arrived datagram).data (min maxDatagram datagram.length) = .ok alc ∧
      alc.tsi = r.tsi ∧ output ∈ (startFdt env (r.arrived datagram) alc).seen) ∨
    ∃ alc before after symbols stored, Puts env r datagram alc before after symbols stored ∧
      (output = .put alc.toi alc.fdtInstanceId symbols ∨
        stored = .ok () ∧ after.complete = true ∧ output ∈ (completeFile env
          ((startFdt env (r.arrived datagram) alc).state.setFile alc.toi after) alc.toi alc.fdtInstanceId after).seen) := by
  rcases handleReceiveFrom_cases env r datagram with ⟨_, run⟩ | ⟨running, armed, _, same⟩
  · rw [run] at seen
    cases seen
  rw [same] at seen
  rcases tryBlock_cases env (r.arrived datagram) (min maxDatagram datagram.length) with
    ⟨ending, run⟩ | ⟨alc, parsed, mine, run⟩
  · rw [run] at seen
    cases seen
  rw [run, handlePacket, HandlerResult.mem_andThen_seen] at seen
  rcases seen with early | ⟨starts, seen⟩
  · exact Or.inl ⟨alc, parsed, mine, early⟩
  rcases receiveSymbols_cases env (startFdt env (r.arrived datagram) alc).state alc
    (min maxDatagram datagram.length) with ⟨ending, run⟩ | ⟨before, after, symbols, stored, stores, run⟩
  · rw [run] at seen
    cases seen
  rw [run, HandlerResult.mem_andThen_seen] at seen
  refine Or.inr ⟨alc, before, after, symbols, stored, ⟨running, parsed, mine, starts, stores⟩, ?_⟩
  rcases seen with here | ⟨ends, later⟩
  · exact Or.inl (List.mem_singleton.mp here)
  · split at later
    · next complete => exact Or.inr ⟨ends, complete, later⟩
    · cases later

/-- That symbols were put into their file is seen. -/
theorem Puts.seen {datagram : List UInt8} {alc : AlcPacket} {before after : File} {symbols : List EncodingSymbol}
    {stored : Outcome Unit} (puts : Puts env r datagram alc before after symbols stored) :
    .put alc.toi alc.fdtInstanceId symbols ∈ (r.handleReceiveFrom env datagram).seen := by
  rcases handleReceiveFrom_cases env r datagram with ⟨stopped, _⟩ | ⟨_, _, _, same⟩
  · rw [puts.running] at stopped
    cases stopped
  rw [same, tryBlock, puts.parsed]
  simp only [show alc.tsi = (r.arrived datagram).tsi from puts.mine, if_true, handlePacket]
  rw [HandlerResult.mem_andThen_seen]
  refine Or.inr ⟨puts.starts, ?_⟩
  unfold receiveSymbols
  simp only [puts.stores.found, puts.stores.incomplete, Bool.false_eq_true, if_false, puts.stores.payload, puts.stores.put]
  rw [HandlerResult.mem_andThen_seen]
  exact Or.inl (List.mem_singleton_self _)

theorem startFdt_seen {alc : AlcPacket} {output : ReceiverOutput} (seen : output ∈ (startFdt env r alc).seen) :
    output = .created alc.fecOti alc.fdtInstanceId := by
  rcases startFdt_cases env r alc with ⟨_, run⟩ | ⟨f, _, _, _, _, run⟩
  · rw [run] at seen
    cases seen
  · rw [run] at seen
    exact List.mem_singleton.mp seen

/-- What the outputs of a step are but for an exception that escapes. -/
theorem step_seen {r' : Receiver} {out : List ReceiverOutput} {event : ReceiverEvent} {output : ReceiverOutput}
    (step : (receiver env).step r event = some (r', out)) (seen : output ∈ out) :
    (∃ what, output = .escaped what) ∨
      ∃ datagram, event = .datagram datagram ∧ output ∈ (r.handleReceiveFrom env datagram).seen := by
  cases event with
  | datagram datagram =>
    obtain ⟨_, _, ⟨_, rfl⟩ | ⟨what, _, rfl⟩⟩ := receiver_step_datagram step
    · exact Or.inr ⟨datagram, rfl, seen⟩
    · rcases List.mem_append.mp seen with here | last
      · exact Or.inr ⟨datagram, rfl, here⟩
      · exact Or.inl ⟨what, List.mem_singleton.mp last⟩
  | receiveError =>
    simp only [receiver] at step
    split at step
    · obtain ⟨_, rfl⟩ := Prod.mk.inj (Option.some.inj step)
      cases seen
    · cases step
  | removeExpiredFiles expired =>
    obtain ⟨_, rfl⟩ := Prod.mk.inj (Option.some.inj step)
    cases seen
  | removeFileWithContentLocation cl =>
    obtain ⟨_, rfl⟩ := Prod.mk.inj (Option.some.inj step)
    cases seen
  | registerCompletionCallback callable =>
    obtain ⟨_, rfl⟩ := Prod.mk.inj (Option.some.inj step)
    cases seen
  | stop =>
    obtain ⟨_, rfl⟩ := Prod.mk.inj (Option.some.inj step)
    cases seen

/-- A delivered file is one that a packet completed, after decoding. -/
theorem step_delivered {r' : Receiver} {out : List ReceiverOutput} {event : ReceiverEvent} {toi : Nat} {file : File}
    (step : (receiver env).step r event = some (r', out)) (delivered : .delivered toi file ∈ out) :
    ∃ datagram alc before after symbols, event = .datagram datagram ∧
      Puts env r datagram alc before after symbols (.ok ()) ∧ after.complete = true ∧ alc.toi = toi ∧ toi ≠ 0 ∧
        after.decode env = (file, .ok ()) := by
  rcases step_seen step delivered with ⟨_, same⟩ | ⟨datagram, rfl, seen⟩
  · cases same
  rcases handleReceiveFrom_seen seen with ⟨alc, _, _, early⟩ | ⟨alc, before, after, symbols, stored, puts, here | ⟨rfl, complete, later⟩⟩
  · cases startFdt_seen early
  · cases here
  · obtain ⟨ends, ⟨other, same⟩ | ⟨_, same | ⟨_, same⟩ | ⟨_, same⟩⟩⟩ := completeFile_seen later
    · obtain ⟨rfl, rfl⟩ := ReceiverOutput.delivered.inj same
      exact ⟨datagram, alc, before, after, symbols, rfl, puts, complete, rfl, other, Prod.ext rfl ends⟩
    · cases same
    · cases same
    · cases same

end Receiver
end Libflute

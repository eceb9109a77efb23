import Libflute.HeldFiles
import Libflute.SampleDatagrams

/-! No file stays in the receiver once it is complete. -/

namespace Libflute

/-- Whether the code behind the last symbol of a complete file gets to where it drops the
file, and drops nothing that failed. -/
def File.finishes (env : Env) (toi instanceId : Nat) (file : File) : Bool :=
  match file.decode env with
  | (_, .error _) => false
  | (decoded, .ok ()) =>
    if toi = 0 then (readBytes decoded.buffer decoded.length >>= FileDeliveryTable.parse env instanceId).isOk
    else decoded.complete

/-- A file that takes symbols: it is not complete, and the memory they go to is there. -/
structure File.Receivable (f : File) : Prop where
  incomplete : f.complete = false
  owned : f.freed = false

namespace File
variable {env : Env} {f : File}

theorem ofEntry_receivable {entry : FileEntry} (run : ofEntry env entry = .ok f) : f.Receivable := by
  unfold ofEntry at run
  split at run
  · obtain ⟨blocks, _, rfl⟩ := withBlocks_eq_ok.mp run
    exact ⟨rfl, rfl⟩
  · cases run

theorem checkFileCompletion_freed (f : File) : (f.checkFileCompletion env).1.freed = f.freed := by
  rcases checkDigest_fst env { f with complete := f.sourceBlocks.all SourceBlock.complete } with same | reset
  · rw [checkFileCompletion, same]
  · rw [checkFileCompletion, reset]
    rfl

theorem putSymbol_freed (env : Env) (f : File) (symbol : EncodingSymbol) : (f.putSymbol env symbol).1.freed = f.freed := by
  unfold putSymbol
  split
  · rfl
  · dsimp only
    split
    · rfl
    · split
      · rfl
      · split
        · rfl
        · exact checkFileCompletion_freed _

theorem putSymbols_freed (env : Env) (f : File) (symbols : List EncodingSymbol) :
    (f.putSymbols env symbols).1.freed = f.freed := by
  induction symbols generalizing f with
  | nil => rfl
  | cons symbol rest ih =>
    rw [putSymbols]
    have one := putSymbol_freed env f symbol
    split
    · next g run =>
      rw [run] at one
      exact (ih g).trans one
    · next g e run =>
      rw [run] at one
      exact one

/-- What ends `decode` with an exception leaves the file as complete as it was. -/
theorem decode_complete {e : Abort} (fails : (f.decode env).2 = .error e) :
    (f.decode env).1.complete = f.complete := by
  unfold File.decode at fails ⊢
  split at fails
  · cases fails
  next undecoded =>
  rw [if_neg undecoded]
  split at fails
  · next known =>
    rw [if_pos known]
    dsimp only at fails ⊢
    split at fails
    · split at fails
      · next checked =>
        split at fails
        · next failed =>
          simp only [checked, ne_eq, not_false_eq_true, if_true]
        · cases fails
        · cases fails
      · cases fails
    · rfl
  · next unknown =>
    rw [if_neg unknown]

/-- Decoding does nothing to a file, or frees the memory its symbols point into. -/
theorem decode_ok (ends : (f.decode env).2 = .ok ()) : (f.decode env).1 = f ∨ (f.decode env).1.freed = true := by
  unfold File.decode at ends ⊢
  split at ends
  · next plain => exact Or.inl (by rw [if_pos plain])
  next undecoded =>
  rw [if_neg undecoded]
  split at ends
  swap
  · cases ends
  next known =>
  rw [if_pos known]
  dsimp only at ends ⊢
  split at ends
  swap
  · cases ends
  refine Or.inr ?_
  split
  · split <;> rfl
  · rfl

/-- A complete file takes no symbols any more, whatever becomes of its decoding. -/
theorem not_receivable_decode (complete : f.complete = true) : ¬ (f.decode env).1.Receivable := by
  intro receivable
  cases ending : (f.decode env).2 with
  | error e =>
    have still := decode_complete ending
    rw [complete, receivable.incomplete] at still
    cases still
  | ok _ =>
    rcases decode_ok ending with same | freed
    · have incomplete := receivable.incomplete
      rw [same, complete] at incomplete
      cases incomplete
    · have owned := receivable.owned
      rw [freed] at owned
      cases owned

end File

def Receiver.NoneComplete (r : Receiver) : Prop := ∀ toi f, r.files.find? toi = some f → f.complete = false

def Receiver.AllReceivable (r : Receiver) : Prop := ∀ toi f, r.files.find? toi = some f → f.Receivable

/-- Every file that is held takes symbols, and none that failed was dropped as delivered. -/
structure HandlerResult.Unwedged (result : HandlerResult) : Prop where
  files : result.state.AllReceivable
  delivered : ∀ toi f, .delivered toi f ∈ result.seen → f.complete = true

namespace Receiver
variable {env : Env} {r : Receiver} {alc : AlcPacket} {len : Nat}

/-- If the symbols of a packet complete their file, then they are all accepted and the file finishes. -/
def finishesSymbols (env : Env) (r : Receiver) (alc : AlcPacket) (len : Nat) : Bool :=
  match r.files.find? alc.toi with
  | none => true
  | some f =>
    match EncodingSymbol.fromPayload (r.data.drop alc.headerLength) (subSize len alc.headerLength) f.fecOti
        alc.contentEncoding with
    | .error _ => true
    | .ok symbols =>
      match f.putSymbols env symbols with
      | (after, .ok ()) => !after.complete || after.finishes env alc.toi alc.fdtInstanceId
      | (after, .error _) => !after.complete

/-- A file that a datagram completes finishes. -/
def finishes (env : Env) (r : Receiver) (datagram : List UInt8) : Bool :=
  let arrived := r.arrived datagram
  let len := min maxDatagram datagram.length
  !r.running ||
    match AlcPacket.parse arrived.data len with
    | .error _ => true
    | .ok alc => alc.tsi ≠ r.tsi || (startFdt env arrived alc).state.finishesSymbols env alc len

theorem AllReceivable.insert {toi : Nat} {f : File} (all : r.AllReceivable) (fresh : f.Receivable) :
    AllReceivable { r with files := r.files.insert toi f } := by
  intro other g held
  change (r.files.insert toi f).find? other = some g at held
  rw [SortedMap.find?_insert] at held
  split at held
  · cases before : r.files.find? toi with
    | none =>
      rw [before] at held
      obtain rfl := Option.some.inj held
      exact fresh
    | some old =>
      rw [before] at held
      obtain rfl := Option.some.inj held
      exact all toi old before
  · exact all other g held

theorem AllReceivable.filter (keep : Nat → File → Bool) (all : r.AllReceivable) :
    AllReceivable { r with files := r.files.filter keep } := by
  intro toi f held
  change (r.files.filter keep).find? toi = some f at held
  rw [SortedMap.find?_filter, Option.filter_eq_some_iff] at held
  exact all toi f held.1

theorem AllReceivable.startFiles {entries : List FileEntry} (all : r.AllReceivable) :
    AllReceivable (startFiles env r entries).state := by
  induction entries generalizing r with
  | nil => exact all
  | cons fe rest ih =>
    rw [Receiver.startFiles]
    split
    · exact ih all
    · split
      · exact all
      · next f made =>
        have inserted : AllReceivable { r with files := r.files.insert fe.toi f } :=
          all.insert (File.ofEntry_receivable made)
        exact HandlerResult.andThen_state inserted fun _ => ih inserted

theorem AllReceivable.startFdt (all : r.AllReceivable) : AllReceivable (startFdt env r alc).state := by
  rcases startFdt_cases env r alc with ⟨_, run⟩ | ⟨f, _, _, _, made, run⟩
  · rwa [run]
  · rw [run]
    exact all.insert (File.ofEntry_receivable made)

/-- The rest of the files when only one may have stopped taking symbols. -/
theorem allReceivable_setFile {toi : Nat} {f : File}
    (others : ∀ other g, other ≠ toi → r.files.find? other = some g → g.Receivable) :
    (r.setFile toi f).AllReceivable ↔ f.Receivable := by
  constructor
  · intro all
    exact all toi f (by rw [find?_setFile, if_pos rfl])
  · intro receivable other g held
    rw [find?_setFile] at held
    split at held
    · obtain rfl := Option.some.inj held
      exact receivable
    · next apart => exact others other g apart held

theorem allReceivable_eraseFile {toi : Nat} {f : File}
    (others : ∀ other g, other ≠ toi → r.files.find? other = some g → g.Receivable) :
    ((r.setFile toi f).eraseFile toi).AllReceivable := by
  intro other g held
  rw [find?_eraseFile] at held
  split at held
  · cases held
  · next apart =>
    rw [find?_setFile, if_neg apart] at held
    exact others other g apart held

theorem startFiles_delivered {entries : List FileEntry} {toi : Nat} {f : File} :
    .delivered toi f ∉ (startFiles env r entries).seen := by
  induction entries generalizing r with
  | nil => simp [startFiles]
  | cons fe rest ih =>
    rw [startFiles]
    split
    · exact ih
    · split
      · simp
      · rw [HandlerResult.mem_andThen_seen]
        rintro (first | ⟨_, later⟩)
        · simp at first
        · exact ih later

theorem parseFdt_delivered {instanceId toi : Nat} {f g : File} : .delivered toi g ∉ (parseFdt env r instanceId f).seen := by
  unfold parseFdt
  split
  · simp
  · rw [HandlerResult.mem_andThen_seen, HandlerResult.mem_andThen_seen]
    rintro (first | ⟨_, second | ⟨_, third⟩⟩)
    · simp at first
    · exact startFiles_delivered second
    · simp at third

theorem parseFdt_unwedged {instanceId : Nat} {f : File}
    (others : ∀ other g, other ≠ 0 → r.files.find? other = some g → g.Receivable) :
    (parseFdt env (r.setFile 0 f) instanceId f).state.AllReceivable ↔ f.Receivable ∨
      (readBytes f.buffer f.length >>= FileDeliveryTable.parse env instanceId).isOk = true := by
  unfold parseFdt
  cases readBytes f.buffer f.length >>= FileDeliveryTable.parse env instanceId with
  | error e =>
    rw [allReceivable_setFile others]
    simp [Except.isOk, Except.toBool]
  | ok table =>
    simp only [Except.isOk, Except.toBool, or_true, iff_true]
    have erased : AllReceivable ({ r.setFile 0 f with fdt := some table }.eraseFile 0) :=
      allReceivable_eraseFile (r := { r with fdt := some table }) others
    refine HandlerResult.andThen_state erased fun _ => ?_
    exact HandlerResult.andThen_state erased.startFiles fun _ => erased.startFiles

theorem completeFile_unwedged {toi instanceId : Nat} {file : File} (complete : file.complete = true)
    (registered : r.completionCb = true)
    (others : ∀ other g, other ≠ toi → r.files.find? other = some g → g.Receivable) :
    (completeFile env r toi instanceId file).Unwedged ↔ file.finishes env toi instanceId = true := by
  have stuck : ¬ (file.decode env).1.Receivable := File.not_receivable_decode complete
  unfold completeFile File.finishes
  cases decoding : file.decode env with
  | mk decoded ending =>
    rw [decoding] at stuck
    dsimp only at stuck ⊢
    have kept : ∀ other g, other ≠ toi → (r.files.filter fun other f => other = toi ∨
        f.entry.contentLocation ≠ file.entry.contentLocation).find? other = some g → g.Receivable := by
      intro other g apart held
      rw [SortedMap.find?_filter, Option.filter_eq_some_iff] at held
      exact others other g apart held.1
    cases ending with
    | error e =>
      rw [HandlerResult.andThen_of_error rfl]
      exact iff_of_false (fun unwedged => stuck ((allReceivable_setFile kept).mp unwedged.files)) (by simp)
    | ok _ =>
      rw [HandlerResult.andThen_of_ok rfl]
      by_cases zero : toi = 0
      · subst zero
        simp only [if_true, List.nil_append]
        constructor
        · intro unwedged
          exact ((parseFdt_unwedged kept).mp unwedged.files).resolve_left stuck
        · intro parses
          exact ⟨(parseFdt_unwedged kept).mpr (Or.inr parses), fun _ _ member => absurd member parseFdt_delivered⟩
      · simp only [if_neg zero, List.nil_append, setFile, registered, if_true]
        constructor
        · intro unwedged
          exact unwedged.delivered toi decoded (List.mem_singleton_self _)
        · intro whole
          have erased := allReceivable_eraseFile (r := { r with files := r.files.filter fun other f => other = toi ∨
            f.entry.contentLocation ≠ file.entry.contentLocation }) (f := decoded) kept
          refine ⟨fun other f held => erased other f held, fun other f member => ?_⟩
          simp only [List.mem_singleton, ReceiverOutput.delivered.injEq] at member
          obtain ⟨_, rfl⟩ := member
          exact whole

theorem receiveSymbols_unwedged (all : r.AllReceivable) (registered : r.completionCb = true) :
    (receiveSymbols env r alc len).Unwedged ↔ r.finishesSymbols env alc len = true := by
  have nothing : ∀ ending, HandlerResult.Unwedged { state := r, ending := ending } := fun _ => ⟨all, by simp⟩
  unfold receiveSymbols finishesSymbols
  cases found : r.files.find? alc.toi with
  | none => exact iff_of_true (nothing _) rfl
  | some f =>
    have others : ∀ other g, other ≠ alc.toi → r.files.find? other = some g → g.Receivable :=
      fun other g _ held => all other g held
    dsimp only
    rw [if_neg (by simp [(all _ _ found).incomplete])]
    cases EncodingSymbol.fromPayload (r.data.drop alc.headerLength) (subSize len alc.headerLength) f.fecOti
        alc.contentEncoding with
    | error e => exact iff_of_true (nothing _) rfl
    | ok symbols =>
      dsimp only
      have owned := File.putSymbols_freed env f symbols
      rw [(all _ _ found).owned] at owned
      cases put : f.putSymbols env symbols with
      | mk after stored =>
        rw [put] at owned
        have receivable : after.Receivable ↔ after.complete = false := ⟨File.Receivable.incomplete, fun left => ⟨left, owned⟩⟩
        cases stored with
        | error e =>
          dsimp only
          rw [HandlerResult.andThen_of_error rfl, Bool.not_eq_true', ← receivable, ← allReceivable_setFile others]
          exact ⟨HandlerResult.Unwedged.files, fun files => ⟨files, by simp⟩⟩
        | ok _ =>
          dsimp only
          rw [HandlerResult.andThen_of_ok rfl]
          by_cases complete : after.complete = true
          · simp only [complete, if_true, Bool.not_true, Bool.false_or]
            have finishes : (completeFile env (r.setFile alc.toi after) alc.toi alc.fdtInstanceId after).Unwedged ↔
                after.finishes env alc.toi alc.fdtInstanceId = true := by
              refine completeFile_unwedged complete registered fun other g apart held => ?_
              rw [find?_setFile, if_neg apart] at held
              exact all other g held
            rw [← finishes]
            constructor
            · intro unwedged
              exact ⟨unwedged.files, fun toi g member => unwedged.delivered toi g (List.mem_append_right _ member)⟩
            · intro unwedged
              exact ⟨unwedged.files, fun toi g member => unwedged.delivered toi g (by simpa using member)⟩
          · rw [Bool.not_eq_true] at complete
            simp only [complete, Bool.not_false, Bool.true_or, iff_true]
            exact ⟨(allReceivable_setFile others).mpr (receivable.mpr complete), by simp⟩

theorem handlePacket_unwedged (all : r.AllReceivable) (registered : r.completionCb = true) :
    (handlePacket env r alc len).Unwedged ↔ (startFdt env r alc).state.finishesSymbols env alc len = true := by
  have started : (startFdt env r alc).state.AllReceivable := all.startFdt
  have quiet : ∀ toi f, .delivered toi f ∉ (startFdt env r alc).seen := by
    rcases startFdt_cases env r alc with ⟨_, run⟩ | ⟨_, _, _, _, _, run⟩ <;> simp [run]
  have callback : (startFdt env r alc).state.completionCb = true := by
    rcases startFdt_cases env r alc with ⟨_, run⟩ | ⟨_, _, _, _, _, run⟩ <;>
    · rw [run]
      exact registered
  unfold handlePacket
  cases ending : (startFdt env r alc).ending with
  | error e =>
    rw [HandlerResult.andThen_of_error ending, finishesSymbols, startFdt_error ending]
    exact iff_of_true ⟨started, fun toi f member => absurd member (quiet toi f)⟩ rfl
  | ok _ =>
    rw [HandlerResult.andThen_of_ok ending, ← receiveSymbols_unwedged started callback]
    refine ⟨fun unwedged => ⟨unwedged.files, fun toi f member => ?_⟩,
      fun unwedged => ⟨unwedged.files, fun toi f member => ?_⟩⟩
    · exact unwedged.delivered toi f (List.mem_append_right _ member)
    · exact unwedged.delivered toi f ((List.mem_append.mp member).resolve_left (quiet toi f))

theorem handleReceiveFrom_unwedged {datagram : List UInt8} (all : r.AllReceivable) (registered : r.completionCb = true) :
    (r.handleReceiveFrom env datagram).Unwedged ↔ r.finishes env datagram = true := by
  have arrived : (r.arrived datagram).AllReceivable := all
  unfold finishes
  rcases handleReceiveFrom_cases env r datagram with ⟨stopped, run⟩ | ⟨running, armed, state, seen⟩
  · rw [run, stopped]
    exact iff_of_true ⟨arrived, by simp⟩ rfl
  · have same : (r.handleReceiveFrom env datagram).Unwedged ↔
        (tryBlock env (r.arrived datagram) (min maxDatagram datagram.length)).Unwedged := by
      refine ⟨fun ⟨files, delivered⟩ => ⟨?_, seen ▸ delivered⟩, fun ⟨files, delivered⟩ => ⟨?_, seen ▸ delivered⟩⟩
      · rw [state] at files
        exact files
      · rw [state]
        exact files
    rw [same, running, Bool.not_true, Bool.false_or]
    unfold tryBlock
    cases AlcPacket.parse (r.arrived datagram).data (min maxDatagram datagram.length) with
    | error e => exact iff_of_true ⟨arrived, by simp⟩ rfl
    | ok alc =>
      by_cases mine : alc.tsi = r.tsi
      · simp only [mine, ne_eq, not_true_eq_false, decide_false, Bool.false_or]
        rw [if_pos (show r.tsi = (r.arrived datagram).tsi from rfl)]
        exact handlePacket_unwedged arrived registered
      · simp only [ne_eq, mine, not_false_eq_true, decide_true, Bool.true_or, iff_true]
        rw [if_neg (show ¬ alc.tsi = (r.arrived datagram).tsi from mine)]
        exact ⟨arrived, by simp⟩

/-- A packet whose payload can be read has its symbols put into the file of its TOI, into
memory that is there, whether the file is held already or is made for a later FDT instance. -/
def ReceivesAgain (env : Env) (r : Receiver) : Prop := ∀ datagram alc, r.running = true →
  AlcPacket.parse (r.arrived datagram).data (min maxDatagram datagram.length) = .ok alc → alc.tsi = r.tsi →
  (startFdt env (r.arrived datagram) alc).ending = .ok () →
  (alc.toi = 0 → (∀ table, r.fdt = some table → table.instanceId ≠ alc.fdtInstanceId) →
    ∃ f, (startFdt env (r.arrived datagram) alc).state.files.find? 0 = some f) ∧
  ∀ f symbols, (startFdt env (r.arrived datagram) alc).state.files.find? alc.toi = some f →
    EncodingSymbol.fromPayload ((r.arrived datagram).data.drop alc.headerLength)
      (subSize (min maxDatagram datagram.length) alc.headerLength) f.fecOti alc.contentEncoding = .ok symbols →
    .put alc.toi alc.fdtInstanceId symbols ∈ (r.handleReceiveFrom env datagram).seen ∧ f.Receivable

theorem receivesAgain (all : r.AllReceivable) : r.ReceivesAgain env := by
  intro datagram alc running parsed mine ends
  have started : (startFdt env (r.arrived datagram) alc).state.AllReceivable :=
    AllReceivable.startFdt (show (r.arrived datagram).AllReceivable from all)
  refine ⟨fun fdt later => ?_, fun f symbols held payload => ⟨?_, started _ f held⟩⟩
  · unfold startFdt at ends ⊢
    by_cases present : (r.arrived datagram).files.contains 0 = true
    · rw [if_neg (by simp [present])]
      exact SortedMap.contains_eq_true.mp present
    · have new : alc.toi = 0 ∧ (r.arrived datagram).fdt.all (fun table => table.instanceId ≠ alc.fdtInstanceId) = true ∧
          (r.arrived datagram).files.contains 0 = false := by
        refine ⟨fdt, ?_, by simpa using present⟩
        rw [Option.all_eq_true]
        exact fun table known => decide_eq_true (later table known)
      rw [if_pos new] at ends ⊢
      split at ends
      · cases ends
      · exact ⟨_, (SortedMap.find?_insert _ _ _ _).trans (if_pos rfl)⟩
  · have stores : Stores env (startFdt env (r.arrived datagram) alc).state alc (min maxDatagram datagram.length) f
        (f.putSymbols env symbols).1 symbols (f.putSymbols env symbols).2 := by
      refine ⟨held, (started _ f held).incomplete, ?_, rfl⟩
      rcases startFdt_cases env (r.arrived datagram) alc with ⟨_, run⟩ | ⟨_, _, _, _, _, run⟩ <;>
      · rw [run]
        exact payload
    exact Puts.seen ⟨running, parsed, mine, ends, stores⟩

/-- A callback is registered when a datagram comes, and a file that the datagram completes finishes. -/
def FinishesNext (env : Env) (r : Receiver) : ReceiverEvent → Prop
  | .datagram datagram => r.completionCb = true ∧ r.finishes env datagram = true
  | _ => True

/-- In every run in which completed files finish no file is complete between two
datagrams, and what comes for a file later is put into it. After the next datagram every
file takes symbols, and none that failed is dropped, exactly if that holds of it too. -/
theorem none_complete_iff (env : Env) (r : Receiver) (log : List ReceiverOutput) :
    (receiver env).Reach (fun r _ e => r.FinishesNext env e) r log →
      r.NoneComplete ∧ r.ReceivesAgain env ∧ (∀ toi f, .delivered toi f ∈ log → f.complete = true) ∧
      ∀ datagram, r.completionCb = true →
        ((r.handleReceiveFrom env datagram).Unwedged ↔ r.finishes env datagram = true) := by
  intro reach
  have invariant : r.AllReceivable ∧ ∀ toi f, .delivered toi f ∈ log → f.complete = true := by
    refine reach.invariant (I := fun r log => r.AllReceivable ∧ ∀ toi f, .delivered toi f ∈ log → f.complete = true) ?_ ?_
    · rintro r ⟨nothing, _⟩
      refine ⟨fun toi f held => ?_, by simp⟩
      rw [nothing] at held
      cases held
    · rintro r log e r' out ⟨all, delivered⟩ next step
      have silent : r'.AllReceivable → out = [] → r'.AllReceivable ∧ ∀ toi f, .delivered toi f ∈ log ++ out → f.complete = true := by
        rintro all' rfl
        exact ⟨all', by simpa using delivered⟩
      cases e with
      | datagram datagram =>
        have unwedged := (handleReceiveFrom_unwedged all next.1).mpr next.2
        obtain ⟨_, rfl, seen⟩ := receiver_step_datagram step
        refine ⟨unwedged.files, fun toi f member => ?_⟩
        rcases List.mem_append.mp member with old | new
        · exact delivered toi f old
        · rcases seen with ⟨_, rfl⟩ | ⟨what, _, rfl⟩
          · exact unwedged.delivered toi f new
          · exact unwedged.delivered toi f (by simpa using new)
      | receiveError =>
        simp only [receiver] at step
        split at step
        · obtain ⟨rfl, rfl⟩ := Prod.mk.inj (Option.some.inj step)
          exact silent all rfl
        · cases step
      | removeExpiredFiles expired =>
        obtain ⟨rfl, rfl⟩ := Prod.mk.inj (Option.some.inj step)
        exact silent (all.filter _) rfl
      | removeFileWithContentLocation cl =>
        obtain ⟨rfl, rfl⟩ := Prod.mk.inj (Option.some.inj step)
        exact silent (all.filter _) rfl
      | registerCompletionCallback callable =>
        obtain ⟨rfl, rfl⟩ := Prod.mk.inj (Option.some.inj step)
        exact silent all rfl
      | stop =>
        obtain ⟨rfl, rfl⟩ := Prod.mk.inj (Option.some.inj step)
        exact silent all rfl
  obtain ⟨all, delivered⟩ := invariant
  exact ⟨fun toi f held => (all toi f held).incomplete, receivesAgain all, delivered,
    fun datagram registered => handleReceiveFrom_unwedged all registered⟩

/-- `FinishesNext` as it is evaluated in a run. -/
def finishesNext (env : Env) (r : Receiver) : ReceiverEvent → Bool
  | .datagram datagram => r.completionCb && r.finishes env datagram
  | _ => true

theorem finishesNext_iff {e : ReceiverEvent} : r.finishesNext env e = true ↔ r.FinishesNext env e := by
  cases e <;> simp [finishesNext, FinishesNext]

/-- A table with a file of the three bytes `abc`, under its digest. -/
def checkedTable : SampleTable where
  files := [listedFile "1" "f" "3" [("Content-MD5", "kAFQmDzST7DWlj99KOF/cg==")]]

/-- A file whose digest fails is received again and delivered. -/
theorem none_complete_iff_again : ∃ r log,
    (receiver (tablesEnv [checkedTable] [])).Reach
      (fun r _ e => r.FinishesNext (tablesEnv [checkedTable] []) e) r log ∧
    (log.filter (ReceiverOutput.putsTo 1)).length = 2 ∧ log.any (ReceiverOutput.delivers 1) = true ∧
    r.NoneComplete ∧ r.ReceivesAgain (tablesEnv [checkedTable] []) := by
  obtain ⟨r, log, reach, checked⟩ := Machine.exists_reach (M := receiver (tablesEnv [checkedTable] []))
    (fun r _ e => r.FinishesNext (tablesEnv [checkedTable] []) e) (finishesNext (tablesEnv [checkedTable] []))
    idleReceiver [
      .registerCompletionCallback true,
      .datagram (fdtPacket 1 checkedTable),
      .datagram (onePacket 1 {} 0 [97, 98, 100]),
      .datagram (onePacket 1 {} 0 [97, 98, 99])]
    (fun result => decide ((result.2.filter (ReceiverOutput.putsTo 1)).length = 2) &&
      result.2.any (ReceiverOutput.delivers 1))
    (fun _ _ _ meets => finishesNext_iff.mp meets) ⟨rfl, rfl, rfl, rfl, rfl⟩ (by decide +kernel)
  simp only [Bool.and_eq_true, decide_eq_true_eq] at checked
  obtain ⟨complete, again, _⟩ := none_complete_iff _ r log reach
  exact ⟨r, log, reach, checked.1, checked.2, complete, again⟩

/-- A table whose expiry is not a number. -/
def undatedTable : SampleTable where
  expires := "never"
  files := []

/-- What `std::stoull` throws is caught with the complete table still held. -/
theorem not_none_complete : ¬ ∀ (env : Env) (r : Receiver) (log : List ReceiverOutput),
    (receiver env).Reach (fun r _ e => ∀ datagram, e = .datagram datagram → r.completionCb = true) r log →
      r.NoneComplete := by
  intro claim
  obtain ⟨r, log, reach, checked⟩ := Machine.exists_reach (M := receiver (tablesEnv [undatedTable] []))
    (fun r _ e => ∀ datagram, e = .datagram datagram → r.completionCb = true)
    (fun r e => r.completionCb || match e with
      | .datagram _ => false
      | _ => true)
    idleReceiver [.registerCompletionCallback true, .datagram (fdtPacket 1 undatedTable)]
    (fun result => result.1.armed && (result.1.files.find? 0).any File.complete)
    (by
      rintro r _ _ meets datagram rfl
      simpa using meets)
    ⟨rfl, rfl, rfl, rfl, rfl⟩ (by decide +kernel)
  simp only [Bool.and_eq_true, Option.any_eq_true] at checked
  obtain ⟨_, f, held, complete⟩ := checked
  rw [claim _ r log reach 0 f held] at complete
  cases complete

end Receiver
end Libflute

import Libflute.SendQueue

/-! What a step of the transmitter does, case by case. -/

namespace Libflute
namespace Transmitter
variable {env : Env} {t t' : Transmitter} {out : List TransmitterOutput}

/-- What a completed FDT file or a completed file of the application does. -/
theorem fileTransmitted_cases (env : Env) (t : Transmitter) (object toi now : Nat) :
    (toi = 0 ∧ t.fileTransmitted env object toi now = {
      state := { t with files := t.files.erase 0 }
      seen := [.erased object 0 (t.files.find? 0)]
      ending := .ok () }) ∨
    (toi ≠ 0 ∧ ((t.fdt.remove toi).fileEntries = [] ∧ t.fileTransmitted env object toi now = {
        state := { t with fdt := t.fdt.remove toi, files := t.files.erase toi }
        seen := .erased object toi (t.files.find? toi) ::
          if t.completionCb then [.transmitted object toi] else []
        ending := .ok () } ∨
      ∃ table : FileDeliveryTable, (t.fdt.remove toi).fileEntries ≠ [] ∧
        table.Reissues (t.fdt.remove toi) ∧
        ((∃ e, t.fileTransmitted env object toi now = {
          state := { t with fdt := table, files := t.files.erase toi }
          seen := [.erased object toi (t.files.find? toi)]
          ending := .error e }) ∨
        ∃ f, FdtFile env t table f ∧ t.fileTransmitted env object toi now = {
          state := { t with
            fdt := table.sent
            objects := t.objects ++ [f]
            files := (t.files.erase toi).insertOrAssign 0 t.objects.length }
          seen := .erased object toi (t.files.find? toi) ::
            ([.built t.objects.length table f, .stored t.objects.length] ++
              if t.completionCb then [.transmitted object toi] else [])
          ending := .ok () }))) := by
  by_cases fdt : toi = 0
  · subst fdt
    exact Or.inl ⟨rfl, rfl⟩
  refine Or.inr ⟨fdt, ?_⟩
  rcases sendFdt_cases env { t with files := t.files.erase toi, fdt := t.fdt.remove toi } now with
    ⟨none, run⟩ | ⟨table, some, same, ⟨e, run⟩ | ⟨f, made, run⟩⟩
  · exact Or.inl ⟨none, by simp only [fileTransmitted, fdt, if_false, run, List.nil_append]⟩
  · exact Or.inr ⟨table, some, same, Or.inl ⟨e, by simp only [fileTransmitted, fdt, if_false, run]⟩⟩
  · refine Or.inr ⟨table, some, same, Or.inr ⟨f, ?_, by simp only [fileTransmitted, fdt, if_false, run]⟩⟩
    exact ⟨made.new, made.digest, made.toi, made.instanceId, made.symbolLength, made.buffer, made.nonempty⟩

/-- What the handler of a completed send does. -/
theorem socketCompleted_cases (sound : t.queue.Sound) {index now : Nat} {ok : Bool} {r : StepResult Unit}
    (run : t.socketCompleted env index ok now = some r) :
    ∃ sent, t.socket[index]? = some sent ∧
      ((ok = false ∧ r = { state := { t with socket := t.socket.eraseIdx index }, ending := .ok () }) ∨
      (ok = true ∧ ∃ f g, t.object? sent.object = some f ∧
        File.Marked env f g (sent.symbols.map EncodingSymbol.key) ∧
        ((g.complete = false ∧ r = {
          state := { t with
            objects := t.objects.set sent.object g
            socket := t.socket.eraseIdx index }
          seen := [.marked sent.object sent.symbols]
          ending := .ok () }) ∨
        (g.complete = true ∧ r = {
          fileTransmitted env { t with
              objects := t.objects.set sent.object g
              socket := t.socket.eraseIdx index } sent.object f.entry.toi now with
            seen := .marked sent.object sent.symbols ::
              (fileTransmitted env { t with
                objects := t.objects.set sent.object g
                socket := t.socket.eraseIdx index } sent.object f.entry.toi now).seen })))) := by
  unfold socketCompleted at run
  split at run
  · cases run
  · next sent here =>
    refine ⟨sent, here, ?_⟩
    obtain ⟨f, found, queued⟩ := sound.flight sent (List.mem_of_getElem? here)
    cases ok with
    | false => exact Or.inl ⟨rfl, (Option.some.inj run).symm⟩
    | true =>
      obtain ⟨g, marking, marked⟩ := (sound.objects _ f found).1.markCompleted env _
        fun symbol member => (queued symbol member).holds
      refine Or.inr ⟨rfl, f, g, found, marked, ?_⟩
      have object : ({ t with socket := t.socket.eraseIdx index } : Transmitter).object? sent.object =
          some f := found
      simp only [if_true, object, marking] at run
      cases complete : g.complete with
      | false =>
        simp only [complete, Bool.false_eq_true, if_false] at run
        exact Or.inl ⟨rfl, (Option.some.inj run).symm⟩
      | true =>
        simp only [complete, if_true] at run
        refine Or.inr ⟨rfl, (Option.some.inj run).symm.trans ?_⟩
        rw [marked.entry]
        rfl

end Transmitter

/-- The events that neither make nor finish a file of the application. -/
def TransmitterEvent.passive : TransmitterEvent → Bool
  | .sendData .. => false
  | .sendDescription _ => false
  | .continueSend _ => false
  | .socketCompleted .. => false
  | _ => true

theorem TransmitterEvent.completes_of_passive {e : TransmitterEvent} (passive : e.passive = true) :
    e.completes = false := by
  cases e <;> first | rfl | cases passive

namespace Transmitter
variable {env : Env} {t t' : Transmitter} {out : List TransmitterOutput}

/-- A call of `send` whose file cannot be made. -/
inductive Refused (env : Env) (t : Transmitter) : TransmitterEvent → Prop
  | data {contentLocation contentType expires data now reason} :
      File.ofData env t.toi.toNat t.fecOti contentLocation contentType expires data false = .error reason →
      Refused env t (.sendData contentLocation contentType expires data now)
  | description {fd reason} :
      File.ofDescription env ((fd.assign t.tsi t.toi).mergeFecOti t.fecOti t.noCode) = .error reason →
      Refused env t (.sendDescription fd)

theorem Refused.completes {e : TransmitterEvent} (refused : Refused env t e) : e.completes = false := by
  cases refused <;> rfl

/-- What the room in a packet depends on. -/
def path (t : Transmitter) : Nat × Option Endpoint × Nat := (t.mtu, t.tunnelEndpoint, t.maxPayload)

/-- What a step does, by what its event comes to. -/
inductive Effect (env : Env) (t : Transmitter) : TransmitterEvent → Transmitter → List TransmitterOutput → Prop
  | settings {e t'} : e.passive = true → t'.queue = t.queue → t'.fdt = t.fdt → t'.fecOti = t.fecOti →
      (t'.path = t.path ∨ ∃ new address, e = .udpTunnelAddress new address ∧ t' = t.udpTunnelAddress new address) →
      Effect env t e t' []
  | rejected {e t' what} : Refused env t e → t'.queue = t.queue → t'.fdt = t.fdt → t'.fecOti = t.fecOti →
      t'.path = t.path → Effect env t e t' [.threw what]
  | hands {e s k o f n packet} : (s = t ∧ e = .sendNextPacket ∨ s = { t with active := true } ∧ e = .activate) →
      s.Hands k o f n packet → Effect env t e
        { s with
          objects := t.objects.set o (f.queue ((f.unsent.take n).map Placed.key))
          socket := t.socket ++ [⟨o, (f.unsent.take n).map f.encoded⟩] }
        [.handed o f.entry.toi f.fecOti ((f.unsent.take n).map f.encoded) packet (t.datagram packet)]
  | failed {index now sent} : t.socket[index]? = some sent →
      Effect env t (.socketCompleted index false now) { t with socket := t.socket.eraseIdx index } []
  | marked {index now sent f g} : t.socket[index]? = some sent → t.object? sent.object = some f →
      File.Marked env f g (sent.symbols.map EncodingSymbol.key) → g.complete = false →
      Effect env t (.socketCompleted index true now)
        { t with objects := t.objects.set sent.object g, socket := t.socket.eraseIdx index }
        [.marked sent.object sent.symbols]
  | finishedFdt {index now sent f g} : t.socket[index]? = some sent → t.object? sent.object = some f →
      File.Marked env f g (sent.symbols.map EncodingSymbol.key) → g.complete = true → f.entry.toi = 0 →
      Effect env t (.socketCompleted index true now)
        { t with
          objects := t.objects.set sent.object g
          socket := t.socket.eraseIdx index
          files := t.files.erase 0 }
        [.marked sent.object sent.symbols, .erased sent.object 0 (t.files.find? 0)]
  | finished {index now sent f g table out} : t.socket[index]? = some sent → t.object? sent.object = some f →
      File.Marked env f g (sent.symbols.map EncodingSymbol.key) → g.complete = true → f.entry.toi ≠ 0 →
      table.Reissues (t.fdt.remove f.entry.toi) →
      (out = [] ∨ out = [.transmitted sent.object f.entry.toi] ∨ ∃ what, out = [.threw what]) →
      Effect env t (.socketCompleted index true now)
        { t with
          objects := t.objects.set sent.object g
          socket := t.socket.eraseIdx index
          files := t.files.erase f.entry.toi
          fdt := table }
        (.marked sent.object sent.symbols ::
          .erased sent.object f.entry.toi (t.files.find? f.entry.toi) :: out)
  | finishedStored {index now sent f g table fdtFile out} : t.socket[index]? = some sent →
      t.object? sent.object = some f → File.Marked env f g (sent.symbols.map EncodingSymbol.key) →
      g.complete = true → f.entry.toi ≠ 0 → table.Reissues (t.fdt.remove f.entry.toi) →
      FdtFile env t table fdtFile → (out = [] ∨ out = [.transmitted sent.object f.entry.toi]) →
      Effect env t (.socketCompleted index true now)
        { t with
          objects := t.objects.set sent.object g ++ [fdtFile]
          socket := t.socket.eraseIdx index
          files := (t.files.erase f.entry.toi).insertOrAssign 0 t.objects.length
          fdt := table.sent }
        (.marked sent.object sent.symbols ::
          .erased sent.object f.entry.toi (t.files.find? f.entry.toi) ::
          .built t.objects.length table fdtFile :: .stored t.objects.length :: out)
  | tickFailed {now table what} : table.Reissues t.fdt →
      Effect env t (.fdtSendTick now) { t with fdt := table } [.threw what]
  | ticked {now table fdtFile} : table.Reissues t.fdt → FdtFile env t table fdtFile →
      Effect env t (.fdtSendTick now)
        { t with
          objects := t.objects ++ [fdtFile]
          files := t.files.insertOrAssign 0 t.objects.length
          fdt := table.sent }
        [.built t.objects.length table fdtFile, .stored t.objects.length]
  | dataFailed {contentLocation contentType expires data now f table what} : t.call = [] →
      File.ofData env t.toi.toNat t.fecOti contentLocation contentType expires data false = .ok f →
      table.Reissues (t.fdt.add f.entry) →
      Effect env t (.sendData contentLocation contentType expires data now)
        { t with toi := t.nextToi, objects := t.objects ++ [f], fdt := table } [.threw what]
  | dataStarted {contentLocation contentType expires data now f table fdtFile} : t.call = [] →
      File.ofData env t.toi.toNat t.fecOti contentLocation contentType expires data false = .ok f →
      table.Reissues (t.fdt.add f.entry) → FdtFile env t table fdtFile →
      Effect env t (.sendData contentLocation contentType expires data now)
        { t with
          toi := t.nextToi
          objects := t.objects ++ [f, fdtFile]
          fdt := table
          call := [.storeFdt (t.objects.length + 1), .markSent, .insertFile t.toi.toNat t.objects.length,
            .returns t.toi.toNat t.objects.length] }
        [.built (t.objects.length + 1) table fdtFile]
  | described {fd f toi} : t.call = [] →
      File.ofDescription env ((fd.assign t.tsi t.toi).mergeFecOti t.fecOti t.noCode) = .ok f →
      Effect env t (.sendDescription fd)
        { t with
          toi := toi
          objects := t.objects ++ [f]
          call := [.insertFile f.entry.toi t.objects.length, .addEntry t.objects.length,
            .returns f.entry.toi t.objects.length] } []
  | storedFdt {now o rest} : t.call = .storeFdt o :: rest → Effect env t (.continueSend now)
      { t with files := t.files.insertOrAssign 0 o, call := rest } [.stored o]
  | markedSent {now rest} : t.call = .markSent :: rest → Effect env t (.continueSend now)
      { t with fdt := t.fdt.sent, call := rest } []
  | inserted {now toi o rest} : t.call = .insertFile toi o :: rest → Effect env t (.continueSend now)
      { t with files := t.files.insert toi o, call := rest } []
  | addFailed {now o rest f table what} : t.call = .addEntry o :: rest → t.object? o = some f →
      table.Reissues (t.fdt.add f.entry) → Effect env t (.continueSend now)
      { t with fdt := table, call := [] } [.threw what]
  | added {now o rest f table fdtFile} : t.call = .addEntry o :: rest → t.object? o = some f →
      table.Reissues (t.fdt.add f.entry) → FdtFile env t table fdtFile →
      Effect env t (.continueSend now)
      { t with
        fdt := table
        objects := t.objects ++ [fdtFile]
        call := .storeFdt t.objects.length :: .markSent :: rest }
      [.built t.objects.length table fdtFile]
  | returned {now toi o rest} : t.call = .returns toi o :: rest → Effect env t (.continueSend now)
      { t with call := rest } [.returned toi o]

/-- What a step result comes to. -/
theorem step_ok {e : TransmitterEvent} {r : StepResult Unit} (performed : t.perform env e = some r)
    (run : t.step env e = some (t', out)) :
    (r.ending = .ok () ∧ t' = r.state ∧ out = r.seen) ∨
      ∃ what, r.ending = .error (.throws what) ∧ t' = r.state ∧ out = r.seen ++ [.threw what] := by
  simp only [step, performed] at run
  split at run
  · next ending =>
    obtain ⟨rfl, rfl⟩ := Prod.mk.inj (Option.some.inj run)
    exact Or.inl ⟨ending, rfl, rfl⟩
  · next what ending =>
    obtain ⟨rfl, rfl⟩ := Prod.mk.inj (Option.some.inj run)
    exact Or.inr ⟨what, ending, rfl, rfl⟩
  · cases run

theorem sendData_effect {contentLocation contentType : String} {expires now : Nat} {data : List UInt8}
    (run : t.step env (.sendData contentLocation contentType expires data now) = some (t', out)) :
    Effect env t (.sendData contentLocation contentType expires data now) t' out := by
  by_cases idle : t.call = []
  swap
  · simp [step, perform, idle] at run
  have performed : t.perform env (.sendData contentLocation contentType expires data now) =
      some (t.sendData env contentLocation contentType expires data now) := by
    rw [perform, if_pos idle]
  have finish := step_ok performed run
  cases made : File.ofData env t.toi.toNat t.fecOti contentLocation contentType expires data false with
  | error e =>
    have result : t.sendData env contentLocation contentType expires data now =
        { state := { t with toi := t.nextToi }, ending := .error e } := by
      simp only [sendData, made]
    rw [result] at finish
    rcases finish with ⟨ending, _⟩ | ⟨what, _, rfl, rfl⟩
    · cases ending
    · exact .rejected (.data made) rfl rfl rfl rfl
  | ok f =>
    have result : t.sendData env contentLocation contentType expires data now =
        startSendFdt env { t with toi := t.nextToi, objects := t.objects ++ [f], fdt := t.fdt.add f.entry } now
          [.insertFile t.toi.toNat t.objects.length, .returns t.toi.toNat t.objects.length] := by
      simp only [sendData, made]
      rfl
    rw [result] at finish
    rcases startSendFdt_cases env { t with toi := t.nextToi, objects := t.objects ++ [f], fdt := t.fdt.add f.entry }
      now [.insertFile t.toi.toNat t.objects.length, .returns t.toi.toNat t.objects.length] with
      ⟨none, _⟩ | ⟨table, _, same, ⟨e, started⟩ | ⟨fdtFile, isFdt, started⟩⟩
    · simp at none
    · rw [started] at finish
      rcases finish with ⟨ending, _⟩ | ⟨what, _, rfl, rfl⟩
      · cases ending
      · have keep : t.call = [] := idle
        have state : ({ t with toi := t.nextToi, objects := t.objects ++ [f], fdt := table, call := [] } :
            Transmitter) = { t with toi := t.nextToi, objects := t.objects ++ [f], fdt := table } := by
          rw [← keep]
        change Effect env t _ { t with toi := t.nextToi, objects := t.objects ++ [f], fdt := table, call := [] } _
        rw [state]
        exact .dataFailed idle made same
    · rw [started] at finish
      rcases finish with ⟨_, rfl, rfl⟩ | ⟨what, ending, _⟩
      · have fdt : FdtFile env t table fdtFile := ⟨isFdt.new, isFdt.digest, isFdt.toi, isFdt.instanceId,
          isFdt.symbolLength, isFdt.buffer, isFdt.nonempty⟩
        have effect : Effect env t (.sendData contentLocation contentType expires data now) _ _ :=
          .dataStarted idle made same fdt
        simpa only [List.append_assoc, List.length_append, List.length_singleton, List.cons_append,
          List.nil_append] using effect
      · cases ending

theorem sendDescription_effect {fd : FileDescription}
    (run : t.step env (.sendDescription fd) = some (t', out)) : Effect env t (.sendDescription fd) t' out := by
  by_cases idle : t.call = []
  swap
  · simp [step, perform, idle] at run
  have performed : t.perform env (.sendDescription fd) = some (t.sendDescription env fd) := by
    rw [perform, if_pos idle]
  have finish := step_ok performed run
  cases made : File.ofDescription env ((fd.assign t.tsi t.toi).mergeFecOti t.fecOti t.noCode) with
  | error e =>
    simp only [sendDescription, made] at finish
    rcases finish with ⟨ending, _⟩ | ⟨what, _, rfl, rfl⟩
    · cases ending
    · exact .rejected (.description made) rfl rfl rfl rfl
  | ok f =>
    simp only [sendDescription, made] at finish
    rcases finish with ⟨_, rfl, rfl⟩ | ⟨what, ending, _⟩
    · rw [← (File.ofDescription_new made).2.2.1]
      exact .described idle made
    · cases ending

theorem continueSend_effect {now : Nat} (run : t.step env (.continueSend now) = some (t', out)) :
    Effect env t (.continueSend now) t' out := by
  cases call : t.call with
  | nil => simp [step, perform, continueSend, call] at run
  | cons first rest =>
    cases first with
    | storeFdt o =>
      simp only [step, perform, continueSend, call] at run
      obtain ⟨rfl, rfl⟩ := Prod.mk.inj (Option.some.inj run)
      exact .storedFdt call
    | markSent =>
      simp only [step, perform, continueSend, call] at run
      obtain ⟨rfl, rfl⟩ := Prod.mk.inj (Option.some.inj run)
      exact .markedSent call
    | insertFile toi o =>
      simp only [step, perform, continueSend, call] at run
      obtain ⟨rfl, rfl⟩ := Prod.mk.inj (Option.some.inj run)
      exact .inserted call
    | returns toi o =>
      simp only [step, perform, continueSend, call] at run
      obtain ⟨rfl, rfl⟩ := Prod.mk.inj (Option.some.inj run)
      exact .returned call
    | addEntry o =>
      cases found : t.object? o with
      | none => simp [step, perform, continueSend, call, found] at run
      | some f =>
        have performed : t.perform env (.continueSend now) =
            some (startSendFdt env { t with fdt := t.fdt.add f.entry } now rest) := by
          simp only [perform, continueSend, call, found]
        have finish := step_ok performed run
        rcases startSendFdt_cases env { t with fdt := t.fdt.add f.entry } now rest with
          ⟨none, _⟩ | ⟨table, _, same, ⟨e, started⟩ | ⟨fdtFile, isFdt, started⟩⟩
        · simp at none
        · rw [started] at finish
          rcases finish with ⟨ending, _⟩ | ⟨what, _, rfl, rfl⟩
          · cases ending
          · exact .addFailed call found same
        · rw [started] at finish
          rcases finish with ⟨_, rfl, rfl⟩ | ⟨what, ending, _⟩
          · exact .added call found same ⟨isFdt.new, isFdt.digest, isFdt.toi, isFdt.instanceId,
              isFdt.symbolLength, isFdt.buffer, isFdt.nonempty⟩
          · cases ending

theorem fdtSendTick_effect {now : Nat} (run : t.step env (.fdtSendTick now) = some (t', out)) :
    Effect env t (.fdtSendTick now) t' out := by
  have finish := step_ok (r := if t.active then t.sendFdt env now else { state := t, ending := .ok () }) rfl run
  split_ifs at finish with active
  · rcases sendFdt_cases env t now with ⟨_, sent⟩ | ⟨table, _, same, ⟨e, sent⟩ | ⟨fdtFile, isFdt, sent⟩⟩
    · rw [sent] at finish
      rcases finish with ⟨_, rfl, rfl⟩ | ⟨what, ending, _⟩
      · exact .settings rfl rfl rfl rfl (Or.inl rfl)
      · cases ending
    · rw [sent] at finish
      rcases finish with ⟨ending, _⟩ | ⟨what, _, rfl, rfl⟩
      · cases ending
      · exact .tickFailed same
    · rw [sent] at finish
      rcases finish with ⟨_, rfl, rfl⟩ | ⟨what, ending, _⟩
      · exact .ticked same isFdt
      · cases ending
  · rcases finish with ⟨_, rfl, rfl⟩ | ⟨what, ending, _⟩
    · exact .settings rfl rfl rfl rfl (Or.inl rfl)
    · cases ending

theorem sendNextPacket_effect {e : TransmitterEvent} {s : Transmitter} (sound : t.queue.Sound)
    (is : s = t ∧ e = .sendNextPacket ∨ s = { t with active := true } ∧ e = .activate)
    (performed : t.perform env e = some s.sendNextPacket) (run : t.step env e = some (t', out)) :
    Effect env t e t' out := by
  have same : s.queue = t.queue ∧ s.fdt = t.fdt ∧ s.fecOti = t.fecOti ∧ s.path = t.path ∧
      s.objects = t.objects ∧ s.socket = t.socket ∧ s.datagram = t.datagram := by
    rcases is with ⟨rfl, _⟩ | ⟨rfl, _⟩ <;> exact ⟨rfl, rfl, rfl, rfl, rfl, rfl, rfl⟩
  have quiet : e.passive = true := by rcases is with ⟨_, rfl⟩ | ⟨_, rfl⟩ <;> rfl
  obtain ⟨queue, fdt, fecOti, path, objects, socket, datagram⟩ := same
  have finish := step_ok performed run
  rcases sendNextPacket_cases s fun o f found =>
      (sound.objects o f (by change t.objects[o]? = some f; rw [← objects]; exact found)).1 with
    ⟨idle, _⟩ | ⟨k, o, f, n, packet, hands⟩ | ⟨_, _, _, _, _, _, stuck⟩
  · rw [idle] at finish
    rcases finish with ⟨_, rfl, rfl⟩ | ⟨what, ending, _⟩
    · exact .settings quiet queue fdt fecOti (Or.inl path)
    · cases ending
  · rw [hands.run] at finish
    rcases finish with ⟨_, rfl, rfl⟩ | ⟨what, ending, _⟩
    · have effect : Effect env t e _ _ := .hands is hands
      simpa only [objects, socket, datagram] using effect
    · cases ending
  · rw [stuck] at finish
    rcases finish with ⟨ending, _⟩ | ⟨what, ending, _⟩ <;> cases ending

theorem socketCompleted_effect (sound : t.queue.Sound) {index now : Nat} {ok : Bool}
    (run : t.step env (.socketCompleted index ok now) = some (t', out)) :
    Effect env t (.socketCompleted index ok now) t' out := by
  cases performed : t.perform env (.socketCompleted index ok now) with
  | none => simp [step, performed] at run
  | some r =>
    have finish := step_ok performed run
    obtain ⟨sent, here, ⟨rfl, rfl⟩ | ⟨rfl, f, g, found, marked, ⟨incomplete, rfl⟩ | ⟨complete, rfl⟩⟩⟩ :=
      socketCompleted_cases sound performed
    · rcases finish with ⟨_, rfl, rfl⟩ | ⟨what, ending, _⟩
      · exact .failed here
      · cases ending
    · rcases finish with ⟨_, rfl, rfl⟩ | ⟨what, ending, _⟩
      · exact .marked here found marked incomplete
      · cases ending
    · set after : Transmitter := { t with
        objects := t.objects.set sent.object g
        socket := t.socket.eraseIdx index }
      have callback : ∀ b : Bool, (if b then [TransmitterOutput.transmitted sent.object f.entry.toi] else []) = [] ∨
          (if b then [TransmitterOutput.transmitted sent.object f.entry.toi] else []) =
            [.transmitted sent.object f.entry.toi] := by
        intro b
        cases b
        · exact Or.inl rfl
        · exact Or.inr rfl
      rcases fileTransmitted_cases env after sent.object f.entry.toi now with
        ⟨fdt, result⟩ | ⟨data, ⟨_, result⟩ | ⟨table, _, same, ⟨e, result⟩ | ⟨fdtFile, isFdt, result⟩⟩⟩
      · rw [result] at finish
        rcases finish with ⟨_, rfl, rfl⟩ | ⟨what, ending, _⟩
        · exact .finishedFdt here found marked complete fdt
        · cases ending
      · rw [result] at finish
        rcases finish with ⟨_, rfl, rfl⟩ | ⟨what, ending, _⟩
        · refine .finished here found marked complete data (.refl _) ?_
          exact (callback _).imp_right Or.inl
        · cases ending
      · rw [result] at finish
        rcases finish with ⟨ending, _⟩ | ⟨what, _, rfl, rfl⟩
        · cases ending
        · exact .finished here found marked complete data same (Or.inr (Or.inr ⟨what, rfl⟩))
      · rw [result] at finish
        rcases finish with ⟨_, rfl, rfl⟩ | ⟨what, ending, _⟩
        · have fdt : FdtFile env t table fdtFile := ⟨isFdt.new, isFdt.digest, isFdt.toi, isFdt.instanceId,
            isFdt.symbolLength, isFdt.buffer, isFdt.nonempty⟩
          have effect : Effect env t (.socketCompleted index true now) _ _ := .finishedStored here found marked complete data same fdt
            (callback after.completionCb)
          have length : after.objects.length = t.objects.length := List.length_set
          simp only [length]
          exact effect
        · cases ending

/-- Every step has one of the effects. -/
theorem step_effect (sound : t.queue.Sound) {e : TransmitterEvent} (run : t.step env e = some (t', out)) :
    Effect env t e t' out := by
  cases e with
  | sendData => exact sendData_effect run
  | sendDescription => exact sendDescription_effect run
  | continueSend => exact continueSend_effect run
  | fdtSendTick => exact fdtSendTick_effect run
  | sendNextPacket => exact sendNextPacket_effect sound (Or.inl ⟨rfl, rfl⟩) rfl run
  | socketCompleted => exact socketCompleted_effect sound run
  | udpTunnelAddress new address =>
    obtain ⟨rfl, rfl⟩ := Prod.mk.inj (Option.some.inj run)
    exact .settings rfl rfl rfl rfl (Or.inr ⟨new, address, rfl, rfl⟩)
  | registerCompletionCallback =>
    obtain ⟨rfl, rfl⟩ := Prod.mk.inj (Option.some.inj run)
    exact .settings rfl rfl rfl rfl (Or.inl rfl)
  | activate =>
    by_cases active : t.active = true
    · simp only [step, perform, activate, if_pos active] at run
      obtain ⟨rfl, rfl⟩ := Prod.mk.inj (Option.some.inj run)
      exact .settings rfl rfl rfl rfl (Or.inl rfl)
    · exact sendNextPacket_effect sound (Or.inr ⟨rfl, rfl⟩) (by rw [perform, activate, if_neg active]) run
  | deactivate =>
    obtain ⟨rfl, rfl⟩ := Prod.mk.inj (Option.some.inj run)
    exact .settings rfl rfl rfl rfl (Or.inl rfl)

end Transmitter
end Libflute

import Libflute.Strays
import Libflute.Tiling
import Libflute.Governing

/-! Which datagrams the handler survives, and what rejected ones leave behind. -/

namespace Libflute

section uncaught
variable {α β : Type}

/-- A call that fails with no exception of the standard library. -/
def FailsUncaught (x : Outcome α) : Prop := ∀ e, x = .error e → e.Uncaught

theorem failsUncaught_ok (a : α) : FailsUncaught (.ok a) := fun _ run => by cases run

theorem failsUncaught_literal (text : String) : FailsUncaught (throwLiteral text : Outcome α) := by
  rintro _ ⟨⟩
  exact Abort.uncaught_literal text

theorem failsUncaught_undefined : FailsUncaught (.error .undefined : Outcome α) := by
  rintro _ ⟨⟩
  exact Abort.uncaught_undefined

theorem failsUncaught_inBounds (a : Option α) : FailsUncaught (inBounds a) := by
  intro e run
  rw [inBounds_error run]
  exact Abort.uncaught_undefined

theorem FailsUncaught.bind {x : Outcome α} {f : α → Outcome β} (first : FailsUncaught x)
    (later : ∀ a, FailsUncaught (f a)) : FailsUncaught (x >>= f) := by
  intro e run
  rcases bind_eq_error.mp run with failed | ⟨a, _, failed⟩
  · exact first e failed
  · exact later a e failed

theorem FailsUncaught.ite {c : Prop} [Decidable c] {x y : Outcome α} (yes : FailsUncaught x)
    (no : FailsUncaught y) : FailsUncaught (if c then x else y) := by
  split
  · exact yes
  · exact no

end uncaught

namespace AlcPacket

theorem parseTsi_failsUncaught (lct : LctHeader) (hdr : List UInt8) : FailsUncaught (parseTsi lct hdr) := by
  unfold parseTsi
  refine .ite (failsUncaught_literal _) (.ite ?_ ?_)
  · refine .bind (failsUncaught_inBounds _) fun half => .bind (failsUncaught_ok _) fun place => ?_
    exact .ite (.bind (failsUncaught_inBounds _) fun _ => failsUncaught_ok _) (failsUncaught_ok _)
  · refine .bind (failsUncaught_ok _) fun place => ?_
    exact .ite (.bind (failsUncaught_inBounds _) fun _ => failsUncaught_ok _) (failsUncaught_ok _)

theorem parseToi_failsUncaught (lct : LctHeader) (hdr : List UInt8) : FailsUncaught (parseToi lct hdr) := by
  unfold parseToi
  have half : ∀ {f : Nat × Nat × List UInt8 → Outcome (Nat × List UInt8)}, (∀ place, FailsUncaught (f place)) →
      FailsUncaught (if lct.halfWordFlag = 1 then do
        let half ← inBounds (Octets.read16 hdr)
        let place ← pure (half, 16, hdr.drop 2)
        f place
      else do
        let place ← pure (0, 0, hdr)
        f place) := fun later => .ite
    (.bind (failsUncaught_inBounds _) fun _ => .bind (failsUncaught_ok _) later) (.bind (failsUncaught_ok _) later)
  refine .ite (failsUncaught_literal _) (half fun place => ?_)
  dsimp only
  split
  · exact failsUncaught_ok _
  · exact .bind (failsUncaught_inBounds _) fun _ => failsUncaught_ok _
  · exact .ite (failsUncaught_literal _) (.bind (failsUncaught_inBounds _) fun _ =>
      .bind (failsUncaught_inBounds _) fun _ => failsUncaught_ok _)
  · exact failsUncaught_literal _

theorem parseExtension_failsUncaught (het hel : Nat) (extPtr : List UInt8) (alc : AlcPacket) :
    FailsUncaught (parseExtension het hel extPtr alc) := by
  unfold parseExtension
  split
  · exact .ite (failsUncaught_literal _) (.bind (failsUncaught_inBounds _) fun _ =>
      .bind (failsUncaught_inBounds _) fun _ => .bind (failsUncaught_inBounds _) fun _ =>
        .bind (failsUncaught_inBounds _) fun _ => failsUncaught_ok _)
  · exact .bind (failsUncaught_inBounds _) fun _ => .ite (failsUncaught_literal _)
      (.bind (failsUncaught_inBounds _) fun _ => failsUncaught_ok _)
  · refine .bind (failsUncaught_inBounds _) fun encoding => ?_
    split <;> exact failsUncaught_ok _
  · exact failsUncaught_ok _

theorem parseExtensions_failsUncaught (fuel : Nat) (hdr : List UInt8) (extHeaderLen : Nat) (alc : AlcPacket) :
    FailsUncaught (parseExtensions fuel hdr extHeaderLen alc) := by
  induction fuel generalizing hdr extHeaderLen alc with
  | zero =>
    rw [parseExtensions]
    exact .ite (failsUncaught_ok _) failsUncaught_undefined
  | succ fuel ih =>
    rw [parseExtensions]
    have pass : ∀ (het hel : Nat) (extPtr : List UInt8) (extLen : Nat), FailsUncaught (
        if extHeaderLen < extLen then throwLiteral "Header extension length exceeds remaining header length"
        else do
          let alc ← parseExtension het hel extPtr alc
          if extLen = 0 then .error .hangs
          else parseExtensions fuel (hdr.drop extLen) (extHeaderLen - extLen) alc) := by
      intro het hel extPtr extLen
      refine .ite (failsUncaught_literal _) (.bind (parseExtension_failsUncaught _ _ _ _) fun next => ?_)
      refine .ite ?_ (ih _ _ _)
      rintro _ ⟨⟩ what same
      cases same
    refine .ite (failsUncaught_ok _) (.bind (failsUncaught_inBounds _) fun het => .ite ?_ ?_)
    · exact .bind (failsUncaught_inBounds _) fun hel => pass _ _ _ _
    · exact .bind (failsUncaught_ok _) fun hel => pass _ _ _ _

/-- Whatever the constructor throws is a string literal. -/
theorem parse_failsUncaught (data : List UInt8) (len : Nat) : FailsUncaught (parse data len) := by
  unfold parse parseHeader
  refine .bind (.ite (failsUncaught_literal _) ?_) fun _ => failsUncaught_ok _
  refine .bind (failsUncaught_inBounds _) fun b0 => .bind (failsUncaught_inBounds _) fun b1 =>
    .bind (failsUncaught_inBounds _) fun b2 => .bind (failsUncaught_inBounds _) fun b3 => ?_
  refine .ite (failsUncaught_literal _) (.ite (failsUncaught_literal _) ?_)
  refine .bind (parseTsi_failsUncaught _ _) fun tsi => .bind (parseToi_failsUncaught _ _) fun toi => ?_
  exact .ite (failsUncaught_literal _) (parseExtensions_failsUncaught _ _ _ _)

end AlcPacket

theorem EncodingSymbol.fromPayload_failsUncaught (encodedData : List UInt8) (dataLen : Nat) (fecOti : FecOti)
    (encoding : ContentEncoding) : FailsUncaught (fromPayload encodedData dataLen fecOti encoding) := by
  unfold fromPayload
  refine .ite (failsUncaught_literal _) (.ite (failsUncaught_literal _) ?_)
  refine .bind (failsUncaught_inBounds _) fun number => .bind (failsUncaught_inBounds _) fun first => ?_
  refine .bind ?_ fun count => failsUncaught_ok _
  exact .ite failsUncaught_undefined (failsUncaught_ok _)

theorem File.ofEntry_failsUncaught (env : Env) (entry : FileEntry) : FailsUncaught (ofEntry env entry) := by
  unfold ofEntry
  refine .ite (.bind ?_ fun blocks => failsUncaught_ok _) (failsUncaught_literal _)
  intro e run what same
  rw [createBlocks_error run] at same
  cases same

namespace File
variable {env : Env} {f : File}

theorem checkDigest_complete {e : Abort} (run : (f.checkDigest env).2 = .error e) :
    (f.checkDigest env).1.complete = true := by
  rw [checkDigest_error run]
  unfold checkDigest at run
  split at run
  · next checked => exact checked.1
  · cases run

/-- Only the digest check can throw an exception, and it runs on complete files. -/
theorem putSymbol_error {symbol : EncodingSymbol} {e : Abort} (run : (f.putSymbol env symbol).2 = .error e) :
    e.Uncaught ∨ (f.putSymbol env symbol).1.complete = true := by
  unfold putSymbol at run ⊢
  split at run
  · exact Or.inl (failsUncaught_literal _ e run)
  next number =>
  rw [if_neg number]
  dsimp only at run ⊢
  split at run
  · exact Or.inl (failsUncaught_literal _ e run)
  next low =>
  rw [if_neg low]
  split at run
  · cases run
  next fresh =>
  rw [if_neg fresh]
  split at run
  · next stopped =>
    obtain rfl := Except.error.inj run
    rw [decode_error stopped]
    exact Or.inl Abort.uncaught_undefined
  · exact Or.inr (checkDigest_complete run)

theorem putSymbols_error {symbols : List EncodingSymbol} {e : Abort} (run : (f.putSymbols env symbols).2 = .error e) :
    e.Uncaught ∨ (f.putSymbols env symbols).1.complete = true := by
  induction symbols generalizing f with
  | nil => cases run
  | cons symbol rest ih =>
    rw [putSymbols] at run ⊢
    split at run
    · exact ih run
    · next g e' stopped =>
      obtain rfl := Except.error.inj run
      have one := putSymbol_error (by rw [stopped] : (f.putSymbol env symbol).2 = .error e')
      rwa [stopped] at one

end File

namespace Receiver
variable {env : Env} {r : Receiver}

/-- A part of the handler that ends by throwing. -/
def Throws {α : Type} (x : Outcome α) : Prop := ∃ what, x = .error (.throws what)

/-- A part of the handler that ends, or throws what the handler catches. -/
def Survives (ending : Outcome Unit) : Prop := ∀ e, ending = .error e → ¬ e.Uncaught

theorem survives_ok : Survives (.ok ()) := fun _ run => by cases run

/-- The constructor of a File that a table lists throws. -/
def RejectsTable (env : Env) (r : Receiver) (instanceId : Nat) (file : File) : Prop :=
  ∃ table, (readBytes file.buffer file.length >>= FileDeliveryTable.parse env instanceId) = .ok table ∧
    Throws (startFiles env ({ r with fdt := some table }.eraseFile 0) table.fileEntries).ending

/-- The files that completing a file leaves. -/
def withoutReplaced (r : Receiver) (toi : Nat) (file : File) : Receiver :=
  { r with files := r.files.filter fun other f => other = toi ∨ f.entry.contentLocation ≠ file.entry.contentLocation }

/-- `from_payload` or `put_symbol` throws, or the constructor of a listed File. -/
def RejectsSymbols (env : Env) (r : Receiver) (alc : AlcPacket) (len : Nat) : Prop :=
  ∃ f, r.files.find? alc.toi = some f ∧ f.complete = false ∧
    (Throws (EncodingSymbol.fromPayload (r.data.drop alc.headerLength) (subSize len alc.headerLength) f.fecOti
        alc.contentEncoding) ∨
      ∃ symbols after stored, EncodingSymbol.fromPayload (r.data.drop alc.headerLength)
          (subSize len alc.headerLength) f.fecOti alc.contentEncoding = .ok symbols ∧
        f.putSymbols env symbols = (after, stored) ∧
        (Throws stored ∨ stored = .ok () ∧ after.complete = true ∧ alc.toi = 0 ∧ ∃ decoded,
          after.decode env = (decoded, .ok ()) ∧ RejectsTable env
            (((r.setFile 0 after).withoutReplaced 0 after).setFile 0 decoded) alc.fdtInstanceId decoded))

/-- `AlcPacket`, `from_payload`, `put_symbol` or a constructor of a File throws on a datagram. -/
def Rejects (env : Env) (r : Receiver) (datagram : List UInt8) : Prop :=
  r.running = true ∧
    (Throws (AlcPacket.parse (r.arrived datagram).data (min maxDatagram datagram.length)) ∨
      ∃ alc, AlcPacket.parse (r.arrived datagram).data (min maxDatagram datagram.length) = .ok alc ∧
        alc.tsi = r.tsi ∧ (Throws (startFdt env (r.arrived datagram) alc).ending ∨
          (startFdt env (r.arrived datagram) alc).ending = .ok () ∧
            RejectsSymbols env (startFdt env (r.arrived datagram) alc).state alc (min maxDatagram datagram.length)))

/-- The handler returns and starts the next receive, unless the receiver was
stopped, and a rejected datagram changes nothing. -/
structure Handles (env : Env) (r : Receiver) (datagram : List UInt8) : Prop where
  ends : (r.handleReceiveFrom env datagram).ending = .ok ()
  rearms : (r.handleReceiveFrom env datagram).state.armed = r.running
  unchanged : r.Rejects env datagram → (r.handleReceiveFrom env datagram).state.fdt = r.fdt ∧
    (r.handleReceiveFrom env datagram).state.files = r.files

/-- Every File that a table lists under a TOI that is not held can be constructed. -/
def CanStart (env : Env) (r : Receiver) (entries : List FileEntry) : Prop :=
  ∀ before fe after, entries = before ++ fe :: after → (∀ other ∈ before, other.toi ≠ fe.toi) →
    r.files.find? fe.toi = none → ∃ f, File.ofEntry env fe = .ok f

/-- A complete file decodes, and a table is parsed and its files can be started;
an exception of the standard library may end it before. -/
def AcceptsFile (env : Env) (r : Receiver) (toi instanceId : Nat) (file : File) : Prop :=
  match file.decode env with
  | (_, .error e) => ¬ e.Uncaught
  | (decoded, .ok ()) => toi = 0 →
    match readBytes decoded.buffer decoded.length >>= FileDeliveryTable.parse env instanceId with
    | .error e => ¬ e.Uncaught
    | .ok table => CanStart env ((r.withoutReplaced 0 file).eraseFile 0) table.fileEntries

/-- The symbols of a packet are cut out and stored, and the file that they complete is fine. -/
def AcceptsSymbols (env : Env) (r : Receiver) (alc : AlcPacket) (len : Nat) : Prop :=
  ∀ f, r.files.find? alc.toi = some f → f.complete = false → ∃ symbols after,
    EncodingSymbol.fromPayload (r.data.drop alc.headerLength) (subSize len alc.headerLength) f.fecOti
      alc.contentEncoding = .ok symbols ∧
    f.putSymbols env symbols = (after, .ok ()) ∧
    (after.complete = true → AcceptsFile env r alc.toi alc.fdtInstanceId after)

/-- A datagram that goes through the handler without a throw in its way. -/
def Accepts (env : Env) (r : Receiver) (datagram : List UInt8) : Prop :=
  r.running = true → ∃ alc, AlcPacket.parse (r.arrived datagram).data (min maxDatagram datagram.length) = .ok alc ∧
    (alc.tsi = r.tsi → (startFdt env (r.arrived datagram) alc).ending = .ok () ∧
      AcceptsSymbols env (startFdt env (r.arrived datagram) alc).state alc (min maxDatagram datagram.length))

theorem startFiles_failsUncaught (entries : List FileEntry) : FailsUncaught (startFiles env r entries).ending := by
  induction entries generalizing r with
  | nil => exact failsUncaught_ok ()
  | cons fe rest ih =>
    rw [startFiles]
    split
    · exact ih
    · split
      · next e made =>
        rintro _ ⟨⟩
        exact File.ofEntry_failsUncaught env fe e made
      · rw [HandlerResult.andThen_of_ok rfl]
        exact ih

theorem startFiles_ends_iff {entries : List FileEntry} :
    (startFiles env r entries).ending = .ok () ↔ CanStart env r entries := by
  induction entries generalizing r with
  | nil =>
    refine iff_of_true rfl ?_
    intro before fe after split
    simp at split
  | cons fe rest ih =>
    have cons : CanStart env r (fe :: rest) ↔ (r.files.find? fe.toi = none → ∃ f, File.ofEntry env fe = .ok f) ∧
        ∀ before other after, rest = before ++ other :: after → (∀ earlier ∈ fe :: before, earlier.toi ≠ other.toi) →
          r.files.find? other.toi = none → ∃ f, File.ofEntry env other = .ok f := by
      constructor
      · intro can
        refine ⟨can [] fe rest rfl (by simp), ?_⟩
        rintro before other after rfl
        exact can (fe :: before) other after rfl
      · rintro ⟨first, later⟩ before other after split
        cases before with
        | nil =>
          obtain ⟨rfl, rfl⟩ := List.cons.inj split
          exact fun _ => first
        | cons head tail =>
          obtain ⟨rfl, rfl⟩ := List.cons.inj split
          exact later tail other after rfl
    rw [startFiles, cons]
    split
    · next held =>
      obtain ⟨g, found⟩ := SortedMap.contains_eq_true.mp held
      rw [ih]
      constructor
      · intro can
        refine ⟨fun absent => ?_, fun before other after split distinct => can before other after split fun earlier member =>
          distinct earlier (List.mem_cons_of_mem _ member)⟩
        rw [absent] at found
        cases found
      · rintro ⟨_, later⟩ before other after split distinct absent
        refine later before other after split ?_ absent
        rw [List.forall_mem_cons]
        refine ⟨fun same => ?_, distinct⟩
        rw [← same, found] at absent
        cases absent
    · next absent =>
      have unheld := SortedMap.contains_eq_false.mp (Bool.not_eq_true _ ▸ absent)
      cases made : File.ofEntry env fe with
      | error e =>
        refine iff_of_false (fun run => by cases run) fun both => ?_
        obtain ⟨f, ok⟩ := both.1 unheld
        cases ok
      | ok f =>
        dsimp only
        rw [HandlerResult.andThen_of_ok rfl]
        change (startFiles env { r with files := r.files.insert fe.toi f } rest).ending = .ok () ↔ _
        rw [ih]
        have inserted : ∀ toi, (r.files.insert fe.toi f).find? toi = none ↔ fe.toi ≠ toi ∧ r.files.find? toi = none := by
          intro toi
          rw [SortedMap.find?_insert]
          split
          · next same => simp [same]
          · next other => simp [Ne.symm other]
        constructor
        · intro can
          refine ⟨fun _ => ⟨f, rfl⟩, fun before other after split distinct missing => ?_⟩
          rw [List.forall_mem_cons] at distinct
          exact can before other after split distinct.2 ((inserted other.toi).mpr ⟨distinct.1, missing⟩)
        · rintro ⟨_, later⟩ before other after split distinct missing
          obtain ⟨apart, missing⟩ := (inserted other.toi).mp missing
          exact later before other after split (List.forall_mem_cons.mpr ⟨apart, distinct⟩) missing

theorem canStart_congr {r r' : Receiver} {entries : List FileEntry}
    (same : ∀ toi, r.files.find? toi = none ↔ r'.files.find? toi = none) :
    CanStart env r entries ↔ CanStart env r' entries := by
  unfold CanStart
  simp only [same]

theorem parseFdt_survives_iff {instanceId : Nat} {file : File} :
    Survives (parseFdt env r instanceId file).ending ↔
      match readBytes file.buffer file.length >>= FileDeliveryTable.parse env instanceId with
      | .error e => ¬ e.Uncaught
      | .ok table => CanStart env ({ r with fdt := some table }.eraseFile 0) table.fileEntries := by
  unfold parseFdt
  cases readBytes file.buffer file.length >>= FileDeliveryTable.parse env instanceId with
  | error e => exact ⟨fun survives => survives e rfl, fun caught e' same => by cases same; exact caught⟩
  | ok table =>
    dsimp only
    rw [HandlerResult.andThen_of_ok rfl, ← startFiles_ends_iff]
    cases ending : (startFiles env ({ r with fdt := some table }.eraseFile 0) table.fileEntries).ending with
    | ok _ =>
      rw [HandlerResult.andThen_of_ok ending]
      exact iff_of_true survives_ok rfl
    | error e =>
      rw [HandlerResult.andThen_of_error ending, ending]
      refine iff_of_false (fun survives => ?_) (by simp)
      exact survives e rfl (startFiles_failsUncaught _ e ending)

theorem RejectsTable.not_survives {instanceId : Nat} {file : File} (rejects : RejectsTable env r instanceId file) :
    ¬ Survives (parseFdt env r instanceId file).ending := by
  obtain ⟨table, parsed, what, throws⟩ := rejects
  rw [parseFdt_survives_iff, parsed]
  dsimp only
  rw [← startFiles_ends_iff, throws]
  simp

theorem find?_withoutReplaced (r : Receiver) (toi other : Nat) (file : File) :
    (r.withoutReplaced toi file).files.find? other = (r.files.find? other).filter fun f =>
      other = toi ∨ f.entry.contentLocation ≠ file.entry.contentLocation :=
  SortedMap.find?_filter _ _ _

theorem completeFile_survives_iff {toi instanceId : Nat} {before file : File} :
    Survives (completeFile env (r.setFile toi before) toi instanceId file).ending ↔
      AcceptsFile env r toi instanceId file := by
  unfold completeFile AcceptsFile
  cases file.decode env with
  | mk decoded ending =>
    dsimp only
    cases ending with
    | error e =>
      rw [HandlerResult.andThen_of_error rfl]
      exact ⟨fun survives => survives e rfl, fun caught e' same => by cases same; exact caught⟩
    | ok _ =>
      rw [HandlerResult.andThen_of_ok rfl]
      dsimp only
      by_cases zero : toi = 0
      · subst zero
        rw [if_pos rfl]
        simp only [forall_const]
        refine parseFdt_survives_iff.trans ?_
        cases readBytes decoded.buffer decoded.length >>= FileDeliveryTable.parse env instanceId with
        | error e => exact Iff.rfl
        | ok table =>
          refine canStart_congr fun toi => ?_
          by_cases zero : toi = 0
          · simp [find?_eraseFile, zero]
          · rw [find?_eraseFile, if_neg zero, find?_eraseFile, if_neg zero]
            change (((r.setFile 0 before).withoutReplaced 0 file).setFile 0 decoded).files.find? toi = none ↔ _
            rw [find?_setFile, if_neg zero, find?_withoutReplaced, find?_withoutReplaced, find?_setFile, if_neg zero]
      · rw [if_neg zero]
        refine iff_of_true ?_ fun same => absurd same zero
        split <;> exact survives_ok

section stores
variable {alc : AlcPacket} {len : Nat} {before after : File} {symbols : List EncodingSymbol} {stored : Outcome Unit}

theorem Stores.accepts_iff (stores : Stores env r alc len before after symbols stored) :
    AcceptsSymbols env r alc len ↔
      stored = .ok () ∧ (after.complete = true → AcceptsFile env r alc.toi alc.fdtInstanceId after) := by
  constructor
  · intro accepts
    obtain ⟨symbols', after', payload, put, fine⟩ := accepts before stores.found stores.incomplete
    obtain rfl := Except.ok.inj (stores.payload.symm.trans payload)
    obtain ⟨rfl, rfl⟩ := Prod.mk.inj (stores.put.symm.trans put)
    exact ⟨rfl, fine⟩
  · rintro ⟨rfl, fine⟩ g found _
    obtain rfl := Option.some.inj (stores.found.symm.trans found)
    exact ⟨symbols, after, stores.payload, stores.put, fine⟩

theorem Stores.rejects (stores : Stores env r alc len before after symbols stored)
    (rejects : RejectsSymbols env r alc len) : Throws stored ∨
      stored = .ok () ∧ after.complete = true ∧ alc.toi = 0 ∧ ∃ decoded, after.decode env = (decoded, .ok ()) ∧
        RejectsTable env (((r.setFile 0 after).withoutReplaced 0 after).setFile 0 decoded) alc.fdtInstanceId decoded := by
  obtain ⟨g, found, _, why⟩ := rejects
  obtain rfl := Option.some.inj (stores.found.symm.trans found)
  rcases why with ⟨what, thrown⟩ | ⟨symbols', after', stored', payload, put, why⟩
  · have never := stores.payload.symm.trans thrown
    cases never
  · obtain rfl := Except.ok.inj (stores.payload.symm.trans payload)
    obtain ⟨rfl, rfl⟩ := Prod.mk.inj (stores.put.symm.trans put)
    exact why

/-- An exception among the symbols leaves a complete file where none was. -/
theorem Stores.thrown {e : Abort} (stores : Stores env r alc len before after symbols (.error e))
    (caught : ¬ e.Uncaught) : RejectsSymbols env r alc len ∧ after.complete = true := by
  have fails := File.putSymbols_error (by rw [stores.put] : (before.putSymbols env symbols).2 = .error e)
  rw [stores.put] at fails
  obtain ⟨what, same⟩ := not_forall.mp caught
  have thrown : Throws (.error e : Outcome Unit) := ⟨_, congrArg Except.error (not_not.mp same)⟩
  exact ⟨⟨before, stores.found, stores.incomplete, Or.inr ⟨symbols, after, _, stores.payload, stores.put, Or.inl thrown⟩⟩,
    fails.resolve_left caught⟩

/-- The rest of the handler when all symbols were stored. -/
theorem Stores.survives_iff (stores : Stores env r alc len before after symbols (.ok ())) :
    Survives (if after.complete then completeFile env (r.setFile alc.toi after) alc.toi alc.fdtInstanceId after
      else { state := r.setFile alc.toi after }).ending ↔ AcceptsSymbols env r alc len := by
  rw [stores.accepts_iff]
  by_cases complete : after.complete = true
  · simp only [complete, if_true, forall_const, true_and]
    exact completeFile_survives_iff
  · rw [if_neg complete]
    exact iff_of_true survives_ok ⟨rfl, fun done => absurd done complete⟩

theorem Stores.rejected_escapes (stores : Stores env r alc len before after symbols (.ok ()))
    (rejects : RejectsSymbols env r alc len) :
    ¬ Survives (if after.complete then completeFile env (r.setFile alc.toi after) alc.toi alc.fdtInstanceId after
      else { state := r.setFile alc.toi after }).ending := by
  rcases stores.rejects rejects with ⟨what, never⟩ | ⟨_, complete, zero, decoded, run, table⟩
  · cases never
  · rw [if_pos complete, zero]
    unfold completeFile
    rw [run]
    dsimp only
    rw [HandlerResult.andThen_of_ok rfl, if_pos rfl]
    exact table.not_survives

end stores

/-- Nothing is cut out of a packet for a file that is missing or complete. -/
def Ignores (r : Receiver) (alc : AlcPacket) : Prop := ∀ f, r.files.find? alc.toi = some f → f.complete = true

theorem receiveSymbols_parts (env : Env) (r : Receiver) (alc : AlcPacket) (len : Nat) :
    (r.Ignores alc ∧ receiveSymbols env r alc len = { state := r }) ∨
    (∃ f e, r.files.find? alc.toi = some f ∧ f.complete = false ∧
      EncodingSymbol.fromPayload (r.data.drop alc.headerLength) (subSize len alc.headerLength) f.fecOti
        alc.contentEncoding = .error e ∧ receiveSymbols env r alc len = { state := r, ending := .error e }) ∨
    ∃ before after symbols stored, Stores env r alc len before after symbols stored ∧
      receiveSymbols env r alc len = HandlerResult.andThen {
        state := r.setFile alc.toi after
        seen := [.put alc.toi alc.fdtInstanceId symbols]
        ending := stored } fun r =>
          if after.complete then completeFile env r alc.toi alc.fdtInstanceId after else { state := r } := by
  unfold receiveSymbols Ignores
  cases found : r.files.find? alc.toi with
  | none => exact Or.inl ⟨fun f held => (by cases held), rfl⟩
  | some f =>
    dsimp only
    split
    · next complete => exact Or.inl ⟨fun g held => Option.some.inj held ▸ complete, rfl⟩
    · next incomplete =>
      have incomplete : f.complete = false := Bool.not_eq_true _ ▸ incomplete
      cases payload : EncodingSymbol.fromPayload (r.data.drop alc.headerLength) (subSize len alc.headerLength)
          f.fecOti alc.contentEncoding with
      | error e => exact Or.inr (Or.inl ⟨f, e, rfl, incomplete, payload, rfl⟩)
      | ok symbols =>
        cases put : f.putSymbols env symbols with
        | mk after stored =>
          refine Or.inr (Or.inr ⟨f, after, symbols, stored, ⟨found, incomplete, payload, put⟩, ?_⟩)
          dsimp only
          rw [put]

/-- A rejection in the part that receives symbols ends the handler, unless it is
an exception that leaves a complete file behind. -/
theorem receiveSymbols_clean_cases (env : Env) (r : Receiver) (alc : AlcPacket) (len : Nat) :
    (AcceptsSymbols env r alc len ∧ Survives (receiveSymbols env r alc len).ending ∧ ¬ RejectsSymbols env r alc len) ∨
    (¬ AcceptsSymbols env r alc len ∧ (¬ Survives (receiveSymbols env r alc len).ending ∨
      RejectsSymbols env r alc len ∧ ∃ before after, r.files.find? alc.toi = some before ∧ before.complete = false ∧
        (receiveSymbols env r alc len).state.files.find? alc.toi = some after ∧ after.complete = true)) := by
  rcases receiveSymbols_parts env r alc len with
    ⟨ignores, run⟩ | ⟨f, e, found, incomplete, payload, run⟩ | ⟨before, after, symbols, stored, stores, run⟩
  · rw [run]
    refine Or.inl ⟨fun f found incomplete => ?_, survives_ok, ?_⟩
    · rw [ignores f found] at incomplete
      cases incomplete
    · rintro ⟨f, found, incomplete, _⟩
      rw [ignores f found] at incomplete
      cases incomplete
  · rw [run]
    refine Or.inr ⟨fun accepts => ?_, Or.inl fun survives => ?_⟩
    · obtain ⟨symbols, _, ok, _⟩ := accepts f found incomplete
      rw [payload] at ok
      cases ok
    · exact survives e rfl (EncodingSymbol.fromPayload_failsUncaught _ _ _ _ e payload)
  · rw [run]
    cases stored with
    | error e =>
      rw [HandlerResult.andThen_of_error rfl]
      refine Or.inr ⟨fun accepts => ?_, ?_⟩
      · obtain ⟨never, _⟩ := stores.accepts_iff.mp accepts
        cases never
      · by_cases plain : e.Uncaught
        · exact Or.inl fun survives => survives e rfl plain
        · obtain ⟨rejects, complete⟩ := stores.thrown plain
          refine Or.inr ⟨rejects, before, after, stores.found, stores.incomplete, ?_, complete⟩
          change (r.setFile alc.toi after).files.find? alc.toi = some after
          rw [find?_setFile, if_pos rfl]
    | ok _ =>
      rw [HandlerResult.andThen_of_ok rfl]
      have survives := stores.survives_iff
      by_cases accepts : AcceptsSymbols env r alc len
      · have ends := survives.mpr accepts
        exact Or.inl ⟨accepts, ends, fun rejects => stores.rejected_escapes rejects ends⟩
      · exact Or.inr ⟨accepts, Or.inl (mt survives.mp accepts)⟩

theorem startFdt_failsUncaught (alc : AlcPacket) : FailsUncaught (startFdt env r alc).ending := by
  unfold startFdt
  split
  · split
    · next e made =>
      rintro _ ⟨⟩
      exact File.ofEntry_failsUncaught _ _ e made
    · exact failsUncaught_ok ()
  · exact failsUncaught_ok ()

/-- What is held under a TOI behind the start of an FDT was held before it, or nothing was. -/
theorem startFdt_find? {alc : AlcPacket} {toi : Nat} {f : File}
    (found : (startFdt env r alc).state.files.find? toi = some f) :
    r.files.find? toi = some f ∨ r.files.find? toi = none := by
  rcases startFdt_cases env r alc with ⟨_, run⟩ | ⟨g, _, _, absent, _, run⟩
  · rw [run] at found
    exact Or.inl found
  · rw [run] at found
    change (r.files.insert 0 g).find? toi = some f at found
    rw [SortedMap.find?_insert] at found
    split at found
    · next zero => exact Or.inr (zero ▸ absent)
    · exact Or.inl found

/-- The `try` block: nothing escapes, and a rejection leaves the receiver as it was. -/
structure Clean (r : Receiver) (rejects : Prop) (result : HandlerResult) : Prop where
  survives : Survives result.ending
  unchanged : rejects → result.state.fdt = r.fdt ∧ result.state.files = r.files

theorem handlePacket_clean_iff {alc : AlcPacket} {len : Nat} :
    Clean r (Throws (startFdt env r alc).ending ∨ (startFdt env r alc).ending = .ok () ∧
        RejectsSymbols env (startFdt env r alc).state alc len) (handlePacket env r alc len) ↔
      (startFdt env r alc).ending = .ok () ∧ AcceptsSymbols env (startFdt env r alc).state alc len := by
  unfold handlePacket
  cases ending : (startFdt env r alc).ending with
  | error e =>
    rw [HandlerResult.andThen_of_error ending]
    refine iff_of_false (fun clean => ?_) (by simp)
    exact clean.survives e ending (startFdt_failsUncaught alc e ending)
  | ok _ =>
    rw [HandlerResult.andThen_of_ok ending]
    have noThrow : ¬ Throws (.ok () : Outcome Unit) := fun ⟨_, run⟩ => by cases run
    simp only [noThrow, true_and, false_or]
    rcases receiveSymbols_clean_cases env (startFdt env r alc).state alc len with
      ⟨accepts, survives, keeps⟩ | ⟨refuses, lost⟩
    · exact iff_of_true ⟨survives, fun rejects => absurd rejects keeps⟩ accepts
    · refine iff_of_false (fun clean => ?_) refuses
      rcases lost with escapes | ⟨rejects, before, after, found, incomplete, here, complete⟩
      · exact escapes clean.survives
      · -- what was not complete, or was not there, is complete now
        have same := (clean.unchanged rejects).2
        dsimp only at same
        rw [same] at here
        rcases startFdt_find? found with held | absent
        · obtain rfl := Option.some.inj (held.symm.trans here)
          rw [incomplete] at complete
          cases complete
        · rw [absent] at here
          cases here

/-- The handler is fine exactly when its `try` block is. -/
theorem handles_iff_clean {datagram : List UInt8} (running : r.running = true) : r.Handles env datagram ↔
    Clean r (r.Rejects env datagram) (tryBlock env (r.arrived datagram) (min maxDatagram datagram.length)) := by
  obtain ⟨handled, same⟩ : ∃ handled, r.handleReceiveFrom env datagram = handled := ⟨_, rfl⟩
  have arrived : (r.arrived datagram).running = true := running
  have run := same
  simp only [handleReceiveFrom, arrived, if_true] at run
  generalize tryBlock env (r.arrived datagram) (min maxDatagram datagram.length) = result at run ⊢
  by_cases survives : Survives result.ending
  · have fine : (r.handleReceiveFrom env datagram).ending = .ok () ∧
        (r.handleReceiveFrom env datagram).state = { result.state with armed := true } := by
      rw [same, ← run]
      split
      · next ending => exact ⟨ending, rfl⟩
      · exact ⟨rfl, rfl⟩
      · next e other ending => exact absurd (fun what same => other what same) (survives e ending)
    obtain ⟨ends, state⟩ := fine
    constructor
    · intro handles
      have unchanged := handles.unchanged
      rw [state] at unchanged
      exact ⟨survives, unchanged⟩
    · intro clean
      refine ⟨ends, by rw [state, running], ?_⟩
      rw [state]
      exact clean.unchanged
  · refine iff_of_false (fun handles => survives fun e ending plain => ?_) fun clean => survives clean.survives
    have ends := handles.ends
    rw [same, ← run, ending] at ends
    split at ends
    · next same => cases same
    · next what same => exact plain what (Except.error.inj same)
    · rw [ending] at ends
      cases ends

theorem handles_iff_accepts (env : Env) (r : Receiver) (datagram : List UInt8) :
    r.Handles env datagram ↔ r.Accepts env datagram := by
  by_cases running : r.running = true
  swap
  · have stopped : r.running = false := Bool.not_eq_true _ ▸ running
    have run : r.handleReceiveFrom env datagram = { state := r.arrived datagram } := by
      rw [handleReceiveFrom]
      exact if_neg running
    refine iff_of_true ⟨by rw [run], by rw [run, stopped]; rfl, fun rejects => absurd rejects.1 running⟩ ?_
    exact fun go => absurd go running
  rw [handles_iff_clean running]
  unfold Rejects Accepts tryBlock
  simp only [running, true_and, forall_const]
  cases parsed : AlcPacket.parse (r.arrived datagram).data (min maxDatagram datagram.length) with
  | error e =>
    refine iff_of_false (fun clean => ?_) (by simp)
    exact clean.survives e rfl (AlcPacket.parse_failsUncaught _ _ e parsed)
  | ok alc =>
    have noThrow : ¬ Throws (.ok alc : Outcome AlcPacket) := fun ⟨_, run⟩ => by cases run
    simp only [noThrow, false_or, Except.ok.injEq, exists_eq_left']
    by_cases mine : alc.tsi = r.tsi
    · simp only [mine, true_and, forall_const]
      rw [if_pos (show r.tsi = (r.arrived datagram).tsi from rfl)]
      refine Iff.trans ⟨fun clean => ?_, fun clean => ?_⟩ handlePacket_clean_iff
      · exact ⟨clean.survives, clean.unchanged⟩
      · exact ⟨clean.survives, clean.unchanged⟩
    · simp only [mine, false_and, false_implies, iff_true]
      rw [if_neg (show ¬ alc.tsi = (r.arrived datagram).tsi from mine)]
      exact ⟨survives_ok, fun never => never.elim⟩

/-- In every state of every run the handler survives a datagram, and a rejected
datagram changes nothing, exactly when the datagram is accepted all the way. -/
theorem handles_iff (env : Env) (r : Receiver) (log : List ReceiverOutput) :
    (receiver env).Reach Machine.always r log → ∀ datagram, r.Handles env datagram ↔ r.Accepts env datagram :=
  fun _ datagram => handles_iff_accepts env r datagram

/-- A datagram whose symbols are stored and leave their file incomplete, as it is evaluated in a run. -/
def storesPart (env : Env) (r : Receiver) (datagram : List UInt8) : Bool :=
  (AlcPacket.parse (r.arrived datagram).data (min maxDatagram datagram.length)).toOption.any fun alc =>
    let started := startFdt env (r.arrived datagram) alc
    started.ending.isOk && (started.state.files.find? alc.toi).any fun f =>
      (EncodingSymbol.fromPayload (started.state.data.drop alc.headerLength)
        (subSize (min maxDatagram datagram.length) alc.headerLength) f.fecOti alc.contentEncoding).toOption.any
          fun symbols => (f.putSymbols env symbols).2.isOk && !(f.putSymbols env symbols).1.complete

theorem accepts_of_storesPart {datagram : List UInt8} (stores : r.storesPart env datagram = true) :
    r.Accepts env datagram := by
  intro _
  obtain ⟨alc, parsed, part⟩ := (Option.any_eq_true _ _).mp stores
  obtain ⟨ends, held⟩ := Bool.and_eq_true_iff.mp part
  refine ⟨alc, toOption_eq_some.mp parsed, fun _ => ⟨isOk_iff.mp ends, fun f found _ => ?_⟩⟩
  rw [found, Option.any_some] at held
  obtain ⟨symbols, payload, put⟩ := (Option.any_eq_true _ _).mp held
  obtain ⟨stored, incomplete⟩ := Bool.and_eq_true_iff.mp put
  refine ⟨symbols, _, toOption_eq_some.mp payload, Prod.ext rfl (isOk_iff.mp stored), fun complete => ?_⟩
  rw [complete] at incomplete
  cases incomplete

/-- A file in two blocks. -/
def wideTable : SampleTable where
  files := [listedFile "1" "f" "16"]

/-- The first half of a file is stored. -/
theorem handles_iff_half : ∃ r log, (receiver (tablesEnv [wideTable] [])).Reach Machine.always r log ∧
    ((r.handleReceiveFrom (tablesEnv [wideTable] []) (blockPacket 1 0 (List.replicate 8 97))).seen.any
      (ReceiverOutput.putsTo 1)) = true ∧
    r.Handles (tablesEnv [wideTable] []) (blockPacket 1 0 (List.replicate 8 97)) := by
  obtain ⟨r, log, reach, checked⟩ := Machine.exists_reach (M := receiver (tablesEnv [wideTable] []))
    Machine.always (fun _ _ => true) idleReceiver [.datagram (fdtPacket 1 wideTable)]
    (fun r => (r.1.handleReceiveFrom (tablesEnv [wideTable] []) (blockPacket 1 0 (List.replicate 8 97))).seen.any
        (ReceiverOutput.putsTo 1) &&
      r.1.storesPart (tablesEnv [wideTable] []) (blockPacket 1 0 (List.replicate 8 97)))
    (fun _ _ _ _ => trivial) ⟨rfl, rfl, rfl, rfl, rfl⟩ (by decide +kernel)
  rw [Bool.and_eq_true] at checked
  exact ⟨r, log, reach, checked.1, (handles_iff _ _ _ reach _).mpr (accepts_of_storesPart checked.2)⟩

/-- One byte stops the receiver for good. -/
theorem not_handles : ¬ ∀ (env : Env) (r : Receiver) (log : List ReceiverOutput),
    (receiver env).Reach Machine.always r log → ∀ datagram, r.Handles env datagram := by
  intro claim
  have reach : (receiver (tablesEnv [] [])).Reach Machine.always idleReceiver [] := .start ⟨rfl, rfl, rfl, rfl, rfl⟩
  have handles := (claim _ _ _ reach [0]).rearms
  have stuck : (idleReceiver.handleReceiveFrom (tablesEnv [] []) [0]).state.armed = false := by decide +kernel
  rw [stuck] at handles
  cases handles

end Receiver
end Libflute

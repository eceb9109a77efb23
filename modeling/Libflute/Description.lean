import Libflute.Transmitter

/-! A file description with where its content lies: what the application may
change about it between two calls of `send`. -/

namespace Libflute

/-- What lies at each address of the process. Reading an area that was unmapped is not modelled. -/
def Memory := Nat → UInt8

namespace Memory

def read (memory : Memory) (address length : Nat) : List UInt8 :=
  (List.range length).map fun i => memory (address + i)

/-- The bytes behind a pointer, of which there are none behind a null pointer. -/
def bytesAt (memory : Memory) (data : Option Nat) (length : Nat) : List UInt8 :=
  match data with
  | some address => memory.read address length
  | none => []

/-- The memory with some bytes at an address. -/
def store (memory : Memory) (address : Nat) (bytes : List UInt8) : Memory := fun a =>
  if address ≤ a then bytes.getD (a - address) (memory a) else memory a

@[simp] theorem length_read (memory : Memory) (address length : Nat) :
    (memory.read address length).length = length := by
  simp [read]

end Memory

inductive CompressionAlgorithm
  | none | gzip | deflate
  deriving DecidableEq, Repr

/-- How `open`, `lseek` and `mmap` end for a file name. -/
inductive Attached
  | notOpened
  | notMeasured (fileHandle : Nat)
  | mapped (fileHandle address : Nat) (bytes : List UInt8)
  deriving DecidableEq, Repr

/-- The file cannot be opened or measured. -/
def Attached.Fails : Attached → Prop
  | .mapped .. => False
  | _ => True

/-- `Transmitter::FileDescription`. A description does not own what `data` points to. -/
structure Description where
  tsi : Option Nat := none
  fileEntry : FileEntry := {}
  compressionType : CompressionAlgorithm := .none
  filename : String := ""
  fileHandle : Option Nat := none
  data : Option Nat := none
  dataLength : Nat := 0
  deriving DecidableEq, Repr

namespace Description

/-- `_attach_file`, where there is `mmap`. -/
def attachFile (d : Description) (memory : Memory) (filename : String) : Attached → Description × Memory × Outcome Unit
  | .notOpened =>
    ({ d with filename := filename, fileHandle := none }, memory,
      .error (.throws (.exception "Could not open the file")))
  | .notMeasured fileHandle =>
    ({ d with filename := filename, fileHandle := some fileHandle }, memory,
      .error (.throws (.exception "Could not find the file length")))
  | .mapped fileHandle address bytes =>
    ({ d with
      filename := filename
      fileHandle := some fileHandle
      data := some address
      dataLength := bytes.length }, memory.store address bytes, .ok ())

/-- `_free_file_data`. What is unmapped and closed stays in `data` and `fileHandle`. -/
def freeFileData (d : Description) : Description := if d.filename = "" then d else { d with filename := "" }

/-- `_calculate_file_entry`. -/
def calculateFileEntry (env : Env) (memory : Memory) (d : Description) : Description :=
  { d with fileEntry := { d.fileEntry with
    contentLength := toU32 d.dataLength
    fecOti := { d.fileEntry.fecOti with transferLength := d.dataLength }
    contentMd5 := match d.data with
      | some address => if d.dataLength = 0 then "" else base64Encode (env.md5 (memory.read address d.dataLength))
      | none => "" } }

/-- The constructor from a memory buffer, and without contents from no buffer. -/
def ofData (env : Env) (memory : Memory) (contentLocation : String) (data : Option Nat) (length : Nat) : Description :=
  calculateFileEntry env memory {
    fileEntry := { contentLocation := contentLocation }
    data := data
    dataLength := if data.isSome then length else 0 }

/-- The constructor from a local file. -/
def ofFile (env : Env) (memory : Memory) (contentLocation filename : String) (attached : Attached) :
    Outcome (Description × Memory) :=
  match attachFile { fileEntry := { contentLocation := contentLocation } } memory filename attached with
  | (d, memory, .ok ()) => .ok (d.calculateFileEntry env memory, memory)
  | (_, _, .error e) => .error e

def resetToi (d : Description) : Description := { d with fileEntry := { d.fileEntry with toi := 0 } }

def setCompression (env : Env) (memory : Memory) (d : Description) (compression : CompressionAlgorithm) : Description :=
  if compression ≠ d.compressionType then
    let contentEncoding := match compression with
      | .gzip => "gzip"
      | .deflate => "deflate"
      | .none => ""
    ({ d with
      compressionType := compression
      fileEntry := { d.fileEntry with contentEncoding := contentEncoding } }).resetToi.calculateFileEntry env memory
  else d

/-- `set_content` of a file. -/
def setContentFile (env : Env) (memory : Memory) (d : Description) (filename : String) (attached : Attached) :
    Description × Memory × Outcome Unit :=
  if filename ≠ d.filename then
    match d.freeFileData.attachFile memory filename attached with
    | (d, memory, .ok ()) => (d.resetToi.calculateFileEntry env memory, memory, .ok ())
    | (d, memory, .error e) => (d, memory, .error e)
  else (d, memory, .ok ())

/-- The TOI after a change of the data area: zero where the content is seen to differ. -/
def toiForData (env : Env) (memory : Memory) (d : Description) (data : Option Nat) (dataLength : Nat) : Nat :=
  if d.dataLength ≠ dataLength then 0
  else match data, d.data with
    | some _, none => if dataLength ≠ 0 then 0 else d.fileEntry.toi
    | some address, some _ =>
      if dataLength ≠ 0 ∧ d.fileEntry.contentMd5 ≠ base64Encode (env.md5 (memory.read address dataLength)) then 0
      else d.fileEntry.toi
    | none, some _ => 0
    | none, none => d.fileEntry.toi

/-- `set_content` of a memory buffer. -/
def setContent (env : Env) (memory : Memory) (d : Description) (data : Option Nat) (dataLength : Nat) : Description :=
  let dataLength := if data.isSome then dataLength else 0
  if data ≠ d.data ∨ d.dataLength ≠ dataLength then
    let toi := toiForData env memory d data dataLength
    calculateFileEntry env memory
      { ({ d with fileEntry := { d.fileEntry with toi := toi } }).freeFileData with
        data := data
        dataLength := dataLength }
  else d

/-- What `send` takes over from its transmitter into a description. -/
def send (d : Description) (tsi : Nat) (nextToi : UInt16) (fecOti : FecOti) : Description :=
  let old := if d.tsi.any (· ≠ tsi) then 0 else d.fileEntry.toi
  let mine := d.fileEntry.fecOti
  { d with
    tsi := some tsi
    fileEntry := { d.fileEntry with
      toi := if old = 0 then nextToi.toNat else old
      fecOti := {
        encodingId := if mine.encodingId.code = 0 then fecOti.encodingId else mine.encodingId
        instanceId := orDefault mine.instanceId fecOti.instanceId
        transferLength := orDefault mine.transferLength fecOti.transferLength
        encodingSymbolLength := orDefault mine.encodingSymbolLength fecOti.encodingSymbolLength
        maxSourceBlockLength := orDefault mine.maxSourceBlockLength fecOti.maxSourceBlockLength
        maxNumberOfEncodingSymbols := orDefault mine.maxNumberOfEncodingSymbols
          fecOti.maxNumberOfEncodingSymbols } } }

/-- The bytes a description holds. -/
def content (memory : Memory) (d : Description) : List UInt8 := memory.bytesAt d.data d.dataLength

/-- A transmitter is given a description with the bytes it holds. -/
structure Snapshot (memory : Memory) (d : Description) (fd : FileDescription) : Prop where
  tsi : fd.tsi = d.tsi
  entry : fd.entry = d.fileEntry
  data : fd.data = d.content memory

/-- `send` does to the description what the transmitter does to its snapshot. -/
theorem Snapshot.send {memory : Memory} {d : Description} {fd : FileDescription} (snapshot : Snapshot memory d fd)
    (tsi : Nat) (nextToi : UInt16) {fecOti : FecOti} (noCode : fecOti.encodingId = .compactNoCode) :
    Snapshot memory (d.send tsi nextToi fecOti) ((fd.assign tsi nextToi).mergeFecOti fecOti noCode) := by
  refine ⟨rfl, ?_, snapshot.data⟩
  simp only [FileDescription.mergeFecOti, FileDescription.assign, Description.send, snapshot.tsi, snapshot.entry]

/-- The call fails and the description is as it was, so that the next call tries again. -/
def KeepsOnFailure (env : Env) (memory : Memory) (d : Description) (filename : String) (attached again : Attached) : Prop :=
  (∃ what, (d.setContentFile env memory filename attached).2.2 = .error (.throws what)) ∧
    (d.setContentFile env memory filename attached).1.data = d.data ∧
    (d.setContentFile env memory filename attached).1.dataLength = d.dataLength ∧
    (d.setContentFile env memory filename attached).1.filename = d.filename ∧
    (d.setContentFile env memory filename attached).1.fileEntry = d.fileEntry ∧
    ∃ what, ((d.setContentFile env memory filename attached).1.setContentFile env memory filename again).2.2 =
      .error (.throws what)

/-- What a failed call leaves behind: the new name, under which the next call does nothing. -/
theorem setContentFile_failed (env : Env) (memory : Memory) (d : Description) {filename : String} {attached : Attached}
    (fails : attached.Fails) (other : filename ≠ d.filename) :
    (d.setContentFile env memory filename attached).1.filename = filename ∧
      ∀ again, (d.setContentFile env memory filename attached).1.setContentFile env memory filename again =
        ((d.setContentFile env memory filename attached).1, memory, .ok ()) := by
  have stored : (d.setContentFile env memory filename attached).1.filename = filename := by
    rw [setContentFile, if_pos other]
    cases attached with
    | notOpened => rfl
    | notMeasured fileHandle => rfl
    | mapped fileHandle address bytes => exact fails.elim
  refine ⟨stored, fun again => ?_⟩
  rw [setContentFile, stored, if_neg (by simp)]

/-- No failed call keeps the description: under the stored name it reports
success, and under another name it stores that name. -/
theorem not_keepsOnFailure_of_fails (env : Env) (memory : Memory) (d : Description) (filename : String)
    (attached again : Attached) (fails : attached.Fails) : ¬ KeepsOnFailure env memory d filename attached again := by
  rintro ⟨⟨what, throws⟩, _, _, kept, _⟩
  by_cases same : filename = d.filename
  · rw [setContentFile, if_neg (by simp [same])] at throws
    cases throws
  · rw [(setContentFile_failed env memory d fails same).1] at kept
    exact same kept

theorem not_keepsOnFailure_of_fails_sample :
    ¬ KeepsOnFailure (sampleEnv [] []) (fun _ => 0) (ofData (sampleEnv [] []) (fun _ => 0) "f" (some 0) 3) "gone"
      .notOpened .notOpened :=
  not_keepsOnFailure_of_fails _ _ _ "gone" .notOpened .notOpened trivial

/-- A description of three bytes and a file that is not there. -/
theorem not_keepsOnFailure : ¬ ∀ (env : Env) (memory : Memory) (d : Description) (filename : String)
    (attached : Attached), attached.Fails → KeepsOnFailure env memory d filename attached attached := by
  intro claim
  obtain ⟨_, _, _, kept, _⟩ := claim (sampleEnv [] []) (fun _ => 0)
    (ofData (sampleEnv [] []) (fun _ => 0) "f" (some 0) 3) "gone" .notOpened trivial
  revert kept
  decide +kernel

end Description
end Libflute

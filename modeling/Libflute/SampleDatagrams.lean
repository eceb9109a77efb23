import Libflute.Receiver
import Libflute.SampleEnv

/-! Tables and packets in which every file has one source block of one symbol. -/

namespace Libflute

/-- A table for files of at most eight bytes. -/
structure SampleTable where
  expires : String := "1"
  files : List (List (String × String))

/-- A File element with its location and length, and further attributes. -/
def listedFile (toi contentLocation contentLength : String) (further : List (String × String) := []) :
    List (String × String) :=
  ("TOI", toi) :: ("Content-Location", contentLocation) :: ("Content-Length", contentLength) :: further

def SampleTable.attributes (table : SampleTable) : List (String × String) :=
  [("Expires", table.expires), ("FEC-OTI-Maximum-Source-Block-Length", "1"), ("FEC-OTI-Encoding-Symbol-Length", "8")]

def SampleTable.document (table : SampleTable) : XmlElement :=
  .mk "FDT-Instance" table.attributes none (table.files.map fun attributes => .mk "File" attributes none [])

/-- An element up to the end of its start tag. -/
def startTag (name : String) (attributes : List (String × String)) : String :=
  attributes.foldl (fun text a => text ++ " " ++ a.1 ++ "=\"" ++ a.2 ++ "\"") ("<" ++ name)

/-- The text of a table, for values without characters that XML escapes. -/
def SampleTable.text (table : SampleTable) : List UInt8 :=
  (table.files.foldl (fun text attributes => text ++ startTag "File" attributes ++ "/>")
    (startTag "FDT-Instance" table.attributes ++ ">") ++ "</FDT-Instance>").toUTF8.toList

/-- The XML parser knows the texts of some tables, zlib some streams. -/
def tablesEnv (tables : List SampleTable) (streams : List (Nat × List UInt8 × List UInt8)) : Env :=
  { sampleEnv [] streams with
    parseXml := fun text => (tables.find? fun table => table.text = text).map SampleTable.document }

/-- A packet of session 7 with one symbol. -/
def onePacket (toi : Nat) (fecOti : FecOti) (instanceId : Nat) (bytes : List UInt8) : List UInt8 :=
  AlcPacket.header 7 toi fecOti instanceId ++ (Octets.be16 0 ++ Octets.be16 0 ++ bytes)

/-- The symbol of a block of a file. -/
def blockPacket (toi sourceBlockNumber : Nat) (bytes : List UInt8) : List UInt8 :=
  AlcPacket.header 7 toi {} 0 ++ (Octets.be16 sourceBlockNumber ++ Octets.be16 0 ++ bytes)

/-- The packet of a table that is sent as one symbol. -/
def fdtPacket (instanceId : Nat) (table : SampleTable) : List UInt8 :=
  onePacket 0 {
    transferLength := table.text.length
    encodingSymbolLength := table.text.length
    maxSourceBlockLength := 1 } instanceId table.text

/-- The receiver of session 7 before its first datagram. -/
def idleReceiver : Receiver where
  tsi := 7
  data := List.replicate maxDatagram 0
  data_length := List.length_replicate

namespace ReceiverOutput

/-- The file that is delivered, under its TOI. -/
def delivery? : ReceiverOutput → Option (Nat × File)
  | .delivered toi f => some (toi, f)
  | _ => none

/-- The table that was processed. -/
def table? : ReceiverOutput → Option FileDeliveryTable
  | .processed table => some table
  | _ => none

theorem eq_delivered {output : ReceiverOutput} {toi : Nat} {f : File} (is : output.delivery? = some (toi, f)) :
    output = .delivered toi f := by
  cases output with
  | delivered other g =>
    obtain ⟨rfl, rfl⟩ := Prod.mk.inj (Option.some.inj is)
    rfl
  | _ => cases is

theorem eq_processed {output : ReceiverOutput} {table : FileDeliveryTable} (is : output.table? = some table) :
    output = .processed table := by
  cases output with
  | processed other =>
    obtain rfl := Option.some.inj is
    rfl
  | _ => cases is

/-- A log in which a delivered file meets a test has the delivery. -/
theorem delivered_of_any {log : List ReceiverOutput} (test : Nat → File → Bool)
    (some : (log.any fun output => output.delivery?.any fun d => test d.1 d.2) = true) :
    ∃ toi f, .delivered toi f ∈ log ∧ test toi f = true := by
  obtain ⟨output, seen, one⟩ := List.any_eq_true.mp some
  obtain ⟨⟨toi, f⟩, is, meets⟩ := (Option.any_eq_true _ _).mp one
  exact ⟨toi, f, eq_delivered is ▸ seen, meets⟩

/-- A log in which a processed table meets a test has the table. -/
theorem processed_of_any {log : List ReceiverOutput} (test : FileDeliveryTable → Bool)
    (some : (log.any fun output => output.table?.any test) = true) : ∃ table, .processed table ∈ log ∧ test table = true := by
  obtain ⟨output, seen, one⟩ := List.any_eq_true.mp some
  obtain ⟨table, is, meets⟩ := (Option.any_eq_true _ _).mp one
  exact ⟨table, eq_processed is ▸ seen, meets⟩

def delivers (toi : Nat) (output : ReceiverOutput) : Bool := output.delivery?.any fun d => decide (d.1 = toi)

def putsTo (toi : Nat) : ReceiverOutput → Bool
  | .put other _ _ => other = toi
  | _ => false

end ReceiverOutput

end Libflute

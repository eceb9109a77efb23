import Libflute.Env
import Libflute.Library.Md5

/-! The libraries as functions that can be run, for the inputs runs are tried on. -/

namespace Libflute

def escapeXml (c : Char) : List Char :=
  match c with
  | '"' => "&quot;".toList
  | '&' => "&amp;".toList
  | '\'' => "&apos;".toList
  | '<' => "&lt;".toList
  | '>' => "&gt;".toList
  | c => [c]

def printAttributes (attributes : List (String × String)) : List Char :=
  attributes.flatMap fun a => ' ' :: a.1.toList ++ '=' :: '"' :: a.2.toList.flatMap escapeXml ++ ['"']

def indentXml (depth : Nat) : List Char := '\n' :: List.replicate (4 * depth) ' '

mutual

/-- What tinyxml2's `XMLPrinter` prints for an element that has either a text
or child elements. -/
def printElement (depth : Nat) : XmlElement → List Char
  | .mk name attributes text children =>
    indentXml depth ++ '<' :: name.toList ++ printAttributes attributes ++
    match text, children with
    | some text, _ => '>' :: text.toList.flatMap escapeXml ++ '<' :: '/' :: name.toList ++ ['>']
    | none, [] => ['/', '>']
    | none, first :: rest =>
      '>' :: printElement (depth + 1) first ++ printElements (depth + 1) rest ++ indentXml depth ++
        '<' :: '/' :: name.toList ++ ['>']

def printElements (depth : Nat) : List XmlElement → List Char
  | [] => []
  | first :: rest => printElement depth first ++ printElements depth rest

end

def printDocument (root : XmlElement) : List UInt8 :=
  "<?xml version=\"1.0\" encoding=\"UTF-8\"?>".toUTF8.toList ++
    (String.ofList (printElement 0 root ++ ['\n'])).toUTF8.toList

/-- Memory is never short and comes zeroed. The XML parser knows the printed
form of some documents, and zlib decompresses some streams, each with its window
bits; it compresses the empty string. -/
def sampleEnv (documents : List XmlElement) (streams : List (Nat × List UInt8 × List UInt8)) : Env where
  md5 := Md5.digest
  md5_length := Md5.length_digest
  malloc _ := true
  fresh n := List.replicate n 0
  fresh_length := fun n => List.length_replicate
  deflate _ := [0x1f, 0x8b, 8, 0, 0, 0, 0, 0, 0, 3, 3, 0, 0, 0, 0, 0, 0, 0, 0, 0]
  deflate_ne_nil := by simp
  inflate windowBits stream := (streams.find? fun s => s.1 = windowBits ∧ s.2.1 = stream).map fun s => s.2.2
  parseXml text := documents.find? fun document => printDocument document = text
  printXml := printDocument
  printXml_ne_nil := by
    intro root
    refine List.append_ne_nil_of_left_ne_nil ?_ _
    decide +kernel

/-! How documents are printed where a run is evaluated: the loop of `ByteArray.toList` is slow there. -/

theorem toList_loop (bytes : ByteArray) (i : Nat) (r : List UInt8) :
    ByteArray.toList.loop bytes i r = r.reverse ++ bytes.data.toList.drop i := by
  fun_induction ByteArray.toList.loop bytes i r with
  | case1 i r inside ih =>
    have here : i < bytes.data.toList.length := inside
    rw [ih, List.reverse_cons, List.append_assoc, List.drop_eq_getElem_cons here, List.singleton_append]
    congr 2
    exact getElem!_pos bytes.data i inside
  | case2 i r outside =>
    have behind : bytes.data.toList.length ≤ i := Nat.le_of_not_lt outside
    rw [List.drop_eq_nil_of_le behind, List.append_nil]

/-- The bytes of a text, character by character. -/
def textBytes (chars : List Char) : List UInt8 := chars.flatMap String.utf8EncodeChar

theorem toList_toUTF8 (chars : List Char) : (String.ofList chars).toUTF8.toList = textBytes chars := by
  have encoded : (String.ofList chars).toUTF8 = (textBytes chars).toByteArray := rfl
  rw [encoded, ByteArray.toList, toList_loop, List.toList_data_toByteArray]
  rfl

def printBytes (root : XmlElement) : List UInt8 :=
  textBytes "<?xml version=\"1.0\" encoding=\"UTF-8\"?>".toList ++ textBytes (printElement 0 root ++ ['\n'])

theorem printBytes_eq : printBytes = printDocument := by
  funext root
  unfold printBytes printDocument
  rw [toList_toUTF8 (printElement 0 root ++ ['\n'])]
  congr 1
  exact (toList_toUTF8 _).symm.trans (congrArg (fun s : String => s.toUTF8.toList) String.ofList_toList)

/-- `sampleEnv` with another way to print a document. -/
def envPrinting (print : XmlElement → List UInt8) (nonempty : ∀ root, print root ≠ []) (documents : List XmlElement)
    (streams : List (Nat × List UInt8 × List UInt8)) : Env :=
  { sampleEnv documents streams with
    parseXml := fun text => documents.find? fun document => print document = text
    printXml := print
    printXml_ne_nil := nonempty }

theorem sampleEnv_eq : sampleEnv = envPrinting printBytes (printBytes_eq ▸ (sampleEnv [] []).printXml_ne_nil) := by
  have same : ∀ print nonempty, print = printDocument → sampleEnv = envPrinting print nonempty := by
    rintro _ _ rfl
    rfl
  exact same _ _ printBytes_eq

end Libflute

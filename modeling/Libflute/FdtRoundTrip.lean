import Libflute.ContentCoding
import Libflute.Transmitter

/-! What the parsing constructor gets back of a table that was printed. -/

namespace Libflute

/-- `FecOti::operator==`, which leaves out the instance ID. -/
def FecOti.equals (a b : FecOti) : Bool :=
  a.encodingId == b.encodingId && a.transferLength == b.transferLength &&
    a.encodingSymbolLength == b.encodingSymbolLength && a.maxSourceBlockLength == b.maxSourceBlockLength &&
    a.maxNumberOfEncodingSymbols == b.maxNumberOfEncodingSymbols

namespace FileEntry

/-- `FileEntry::operator==`. -/
def equals (a b : FileEntry) : Bool :=
  a.toi == b.toi && a.contentLength == b.contentLength && a.expires == b.expires &&
    a.cacheControl.noCache == b.cacheControl.noCache && a.fecOti.equals b.fecOti &&
    a.cacheControl.cacheExpires == b.cacheControl.cacheExpires && a.contentLocation == b.contentLocation &&
    a.contentMd5 == b.contentMd5 && a.contentType == b.contentType &&
    a.contentEncoding == b.contentEncoding && a.etag == b.etag

/-- What is parsed back of an entry that was printed. -/
def reread (globalFecOti : FecOti) (fe : FileEntry) : FileEntry :=
  let cacheExpires := if fe.cacheControl.noCache then none else fe.cacheControl.cacheExpires.map fun _ => fe.expires
  { toi := fe.toi
    contentLocation := cString fe.contentLocation
    contentLength := fe.contentLength
    contentMd5 := cString fe.contentMd5
    contentType := cString fe.contentType
    expires := cacheExpires.getD 0
    fecOti := {
      encodingId := fe.fecOti.encodingId
      instanceId := orDefault fe.fecOti.instanceId globalFecOti.instanceId
      transferLength := toU32 (orDefault fe.fecOti.transferLength fe.contentLength)
      encodingSymbolLength := orDefault fe.fecOti.encodingSymbolLength globalFecOti.encodingSymbolLength
      maxSourceBlockLength := orDefault fe.fecOti.maxSourceBlockLength globalFecOti.maxSourceBlockLength
      maxNumberOfEncodingSymbols := globalFecOti.maxNumberOfEncodingSymbols }
    cacheControl := { noCache := fe.cacheControl.noCache, cacheExpires := cacheExpires }
    contentEncoding := cString fe.contentEncoding
    etag := cString fe.etag }

end FileEntry

/-- The numbers the FEC parameters are given as fit their types. -/
structure FecOti.InRange (fecOti : FecOti) : Prop where
  instanceId : fecOti.instanceId < 2 ^ 32
  encodingSymbolLength : fecOti.encodingSymbolLength < 2 ^ 32
  maxSourceBlockLength : fecOti.maxSourceBlockLength < 2 ^ 32
  maxNumberOfEncodingSymbols : fecOti.maxNumberOfEncodingSymbols < 2 ^ 32

/-- The metadata of a file that one of the constructors for transmission made. -/
inductive FileEntry.MadeForSending (env : Env) : FileEntry → Prop
  | data {toi expires : Nat} {fecOti : FecOti} {contentLocation contentType : String} {data : List UInt8}
      {copyData : Bool} {f : File} : toi < 2 ^ 32 → expires < 2 ^ 64 → fecOti.InRange → data.length < 2 ^ 48 →
      File.ofData env toi fecOti contentLocation contentType expires data copyData = .ok f →
      MadeForSending env f.entry
  | description {fd : FileDescription} {f : File} : fd.entry.expires < 2 ^ 64 → fd.entry.fecOti.InRange →
      fd.data.length < 2 ^ 48 → fd.entry.contentLength = toU32 fd.data.length →
      File.ofDescription env fd = .ok f → MadeForSending env f.entry

/-- What holds of every such entry. -/
structure FileEntry.Printable (fe : FileEntry) : Prop where
  toi : fe.toi < 2 ^ 32
  contentLength : fe.contentLength < 2 ^ 32
  expires : fe.expires < 2 ^ 64
  scheme : fe.fecOti.encodingId = .compactNoCode
  fecOti : fe.fecOti.InRange
  transferLength : fe.fecOti.transferLength < 2 ^ 48
  empty : fe.fecOti.transferLength = 0 → fe.contentLength = 0

/-- The file of a description keeps its entry but for the transfer length. -/
theorem File.ofDescription_entry {env : Env} {fd : FileDescription} {f : File} (run : ofDescription env fd = .ok f) :
    ∃ transferLength, f.entry =
        { fd.entry with fecOti := { fd.entry.fecOti with transferLength := transferLength } } ∧
      (transferLength = fd.data.length ∨ 0 < transferLength ∧ transferLength ≤ zlibChunk) := by
  by_cases plain : fd.entry.contentEncoding = ""
  · obtain ⟨_, _, _, _, _, _, unencoded, _⟩ := ofDescription_new run
    exact ⟨_, (unencoded plain).2, Or.inl rfl⟩
  · obtain ⟨_, _, _, short, blocks⟩ := (ofDescription_encoded plain).mp run
    obtain ⟨sourceBlocks, _, rfl⟩ := withBlocks_eq_ok.mp blocks
    exact ⟨_, rfl, Or.inr ⟨List.length_pos_of_ne_nil (env.deflate_ne_nil _), short⟩⟩

theorem FileEntry.MadeForSending.printable {env : Env} {fe : FileEntry} (made : fe.MadeForSending env) :
    fe.Printable := by
  have narrow : ∀ n, toU32 n < 2 ^ 32 := fun n => Nat.mod_lt _ (by decide)
  cases made with
  | @data toi expires fecOti contentLocation contentType data copyData f small date range short run =>
    obtain ⟨new, _, _, _, _, entry⟩ := File.ofData_new run
    have scheme := new.sound.scheme
    rw [File.fecOti] at scheme
    rw [entry] at scheme ⊢
    refine ⟨small, narrow _, date, scheme, ⟨range.1, range.2, range.3, range.4⟩, short, fun none => ?_⟩
    change toU32 data.length = 0
    change data.length = 0 at none
    rw [none]
    rfl
  | @description fd f date range short length run =>
    obtain ⟨transferLength, entry, source⟩ := File.ofDescription_entry run
    rw [entry]
    refine ⟨fd.toi_lt.trans (by decide), length ▸ narrow _, date, fd.noCode,
      ⟨range.1, range.2, range.3, range.4⟩, ?_, fun none => ?_⟩
    · change transferLength < 2 ^ 48
      rcases source with rfl | ⟨_, le⟩
      · exact short
      · exact le.trans_lt (by decide)
    · change fd.entry.contentLength = 0
      change transferLength = 0 at none
      rcases source with same | ⟨positive, _⟩
      · rw [length, ← same, none]
        rfl
      · omega

/-- The attributes `to_string` gives a File element. -/
def fileAttributeNames : List String :=
  ["TOI", "Content-Location", "Content-Length", "Transfer-Length", "Content-MD5", "Content-Encoding",
    "Content-Type", "FEC-OTI-FEC-Encoding-ID", "FEC-OTI-FEC-Instance-ID",
    "FEC-OTI-Maximum-Source-Block-Length", "FEC-OTI-Encoding-Symbol-Length", "mbms2012:File-ETag"]

/-- The names a table declares for its elements. -/
def FdtNamespace.names (ns : FdtNamespace) : XmlNamespaces where
  defaultNs := ns.uri
  prefixToNs := [("mbms2007", mbms2007Ns), ("mbms2012", mbms2012Ns)]

namespace XmlNamespaces
variable {ns : XmlNamespaces} {element : XmlElement}

/-- An element that declares no namespaces. -/
theorem ofElement_eq_parent (none : ∀ attr ∈ element.attributes,
    attr.1 ≠ "xmlns" ∧ attr.1.toList.take 6 ≠ "xmlns:".toList) : ofElement element ns = ns := by
  rw [ofElement]
  generalize element.attributes = attributes at none
  induction attributes with
  | nil => rfl
  | cons attr rest ih =>
    obtain ⟨first, second⟩ := none attr (by simp)
    rw [List.foldl_cons, if_neg first, if_neg second]
    exact ih fun other inRest => none other (by simp [inRest])

/-- An attribute is found by the one name it can be written under. -/
theorem findAttribute_eq_lookup {name uri key : String} (only : ∀ attr ∈ element.attributes,
    matchesName { ns with defaultNs := ns.elementNamespace element } attr.1 name uri = (key == attr.1)) :
    ns.findAttribute element name uri = element.attributes.lookup key := by
  rw [findAttribute]
  generalize element.attributes = attributes at only
  induction attributes with
  | nil => rfl
  | cons attr rest ih =>
    have here := only attr (by simp)
    have later := ih fun other inRest => only other (by simp [inRest])
    rw [List.find?_cons, here, List.lookup_cons]
    by_cases same : key == attr.1
    · simp only [same, Option.map_some]
    · simp only [same, later]

/-- A name with a prefix that neither is the given name nor ends in it. -/
def otherName (name attrName : String) : Bool :=
  (splitColon attrName).all fun split => decide (split.2 ≠ name ∧ attrName ≠ name)

theorem findAttribute_plain {name : String} (plain : splitColon element.name = none)
    (others : ∀ attr ∈ element.attributes, otherName name attr.1 = true) :
    ns.findAttribute element name ns.defaultNs = element.attributes.lookup name := by
  refine findAttribute_eq_lookup fun attr member => ?_
  have home : ns.elementNamespace element = ns.defaultNs := by rw [elementNamespace, plain]
  have other := others attr member
  rw [otherName] at other
  cases split : splitColon attr.1 with
  | none => simp [matchesName, split, home]
  | some parts =>
    rw [split, Option.all_some, decide_eq_true_eq] at other
    have behind : (name == parts.2) = false := beq_eq_false_iff_ne.mpr (Ne.symm other.1)
    have whole : (name == attr.1) = false := beq_eq_false_iff_ne.mpr (Ne.symm other.2)
    simp only [matchesName, split, behind, whole, Bool.false_and]

end XmlNamespaces

namespace FileDeliveryTable
variable {fdt : FileDeliveryTable}

theorem lookup_attributeIf (condition : Bool) (name value key : String) :
    (attributeIf condition name value).lookup key = if condition && key == name then some value else none := by
  cases condition
  · rfl
  · by_cases same : key == name <;> simp [attributeIf, same]

theorem names_fileElement {globalFecOti : FecOti} {fe : FileEntry} {attr : String × String}
    (member : attr ∈ (fileElement globalFecOti fe).attributes) : attr.1 ∈ fileAttributeNames := by
  have optional : ∀ {condition : Bool} {name value : String}, attr ∈ attributeIf condition name value →
      attr.1 = name := fun inIf => by
    unfold attributeIf at inIf
    split at inIf
    · rw [List.mem_singleton.mp inIf]
    · cases inIf
  simp only [fileElement, XmlElement.attributes, List.mem_append, List.mem_cons, List.not_mem_nil, or_false]
    at member
  rcases member with ((((((((((rfl | rfl | rfl) | is) | is) | is) | is) | is) | is) | is) | is) | is) <;>
    first
    | simp [fileAttributeNames, optional is]
    | simp [fileAttributeNames]

variable {globalFecOti : FecOti} {ns : XmlNamespaces} {fdtNamespace : FdtNamespace} {fe : FileEntry}

theorem ofElement_fileElement : XmlNamespaces.ofElement (fileElement globalFecOti fe) ns = ns := by
  have none : ∀ name ∈ fileAttributeNames, name ≠ "xmlns" ∧ name.toList.take 6 ≠ "xmlns:".toList := by
    simp [fileAttributeNames]
  exact XmlNamespaces.ofElement_eq_parent fun attr member => none _ (names_fileElement member)

theorem splitColon_file : splitColon "File" = none := by rfl

theorem findAttribute_fileElement {name : String}
    (others : ∀ attrName ∈ fileAttributeNames, XmlNamespaces.otherName name attrName = true) :
    ns.findAttribute (fileElement globalFecOti fe) name ns.defaultNs =
      (fileElement globalFecOti fe).attributes.lookup name :=
  XmlNamespaces.findAttribute_plain splitColon_file fun _ member => others _ (names_fileElement member)

theorem findAttribute_etag :
    fdtNamespace.names.findAttribute (fileElement globalFecOti fe) "File-ETag" mbms2012Ns =
      (fileElement globalFecOti fe).attributes.lookup "mbms2012:File-ETag" := by
  have only : ∀ name ∈ fileAttributeNames, fdtNamespace.names.matchesName name "File-ETag" mbms2012Ns =
      ("mbms2012:File-ETag" == name) := by
    cases fdtNamespace <;> decide
  have home : fdtNamespace.names.elementNamespace (fileElement globalFecOti fe) = fdtNamespace.uri := by
    rw [XmlNamespaces.elementNamespace, fileElement, XmlElement.name, splitColon_file]
    rfl
  refine XmlNamespaces.findAttribute_eq_lookup fun attr member => ?_
  rw [home]
  exact only _ (names_fileElement member)

theorem numberOr_toString {default n : Nat} (small : n < 2 ^ 64) :
    numberOr default (some (toString n)) = toU32 n := by
  rw [numberOr, strtoul_toString small]

/-- A number that is left out where it is zero or the table's own is found again. -/
theorem numberOr_inherited {default n : Nat} (small : n < 2 ^ 32) :
    numberOr default (if n ≠ 0 ∧ n ≠ default then some (toString n) else none) = orDefault n default := by
  rw [orDefault]
  split_ifs with written zero zero
  · exact absurd zero written.1
  · rw [numberOr_toString (small.trans (by decide))]
    exact Nat.mod_eq_of_lt small
  · rfl
  · rw [not_and_or, not_not, not_not] at written
    exact (written.resolve_left zero).symm

theorem textOr_if (text : String) : (if text ≠ "" then some (cString text) else none).getD "" = cString text := by
  split
  · rfl
  · next empty =>
    rw [not_not.mp empty]
    simp [cString]

/-- The first child of an element with one child. -/
theorem findChildElement_singleton {name childName uri key : String} {attributes : List (String × String)}
    {elementText childText : Option String} {children : List XmlElement} :
    ns.findChildElement (.mk name attributes elementText [.mk childName [] childText children]) key uri =
      if ns.matchesName childName key uri then some (.mk childName [] childText children) else none := by
  have same : ns.matchesElement (.mk childName [] childText children) key uri =
      ns.matchesName childName key uri := rfl
  rw [XmlNamespaces.findChildElement, XmlElement.children, List.find?_cons, same]
  cases ns.matchesName childName key uri <;> rfl

/-- The Cache-Control element of an entry, as it is parsed back. -/
theorem parseCacheControl_fileElement (small : fe.expires < 2 ^ 64) :
    parseCacheControl fdtNamespace.names (fileElement globalFecOti fe) = .ok {
      noCache := fe.cacheControl.noCache
      cacheExpires := if fe.cacheControl.noCache then none
        else fe.cacheControl.cacheExpires.map fun _ => fe.expires } := by
  have named : fdtNamespace.names.matchesName "mbms2007:Cache-Control" "Cache-Control" mbms2007Ns = true ∧
      fdtNamespace.names.matchesName "mbms2007:no-cache" "no-cache" mbms2007Ns = true ∧
      fdtNamespace.names.matchesName "mbms2007:no-cache" "Expires" mbms2007Ns = false ∧
      fdtNamespace.names.matchesName "mbms2007:Expires" "no-cache" mbms2007Ns = false ∧
      fdtNamespace.names.matchesName "mbms2007:Expires" "Expires" mbms2007Ns = true := by
    cases fdtNamespace <;> exact ⟨rfl, rfl, rfl, rfl, rfl⟩
  have declares : ∀ text children, XmlNamespaces.ofElement (.mk "mbms2007:Cache-Control" [] text children)
      fdtNamespace.names = fdtNamespace.names := fun _ _ => rfl
  cases noCache : fe.cacheControl.noCache
  · cases expires : fe.cacheControl.cacheExpires with
    | none =>
      rw [parseCacheControl, fileElement, cacheControlElement, noCache, expires]
      rfl
    | some date =>
      rw [parseCacheControl, fileElement, cacheControlElement, noCache, expires]
      simp only [Bool.false_or, Option.isSome_some, if_true, Bool.false_eq_true, if_false,
        findChildElement_singleton, named, declares, XmlElement.text, inBounds_some, ok_bind,
        strtoul_toString small]
      rfl
  · rw [parseCacheControl, fileElement, cacheControlElement, noCache]
    simp only [Bool.true_or, if_true, findChildElement_singleton, named, declares, Bool.false_eq_true, if_false]
    rfl

/-- The attributes of a File element as they were written. -/
theorem lookup_fileElement : ∀ entry ∈ [
    ("TOI", some (toString fe.toi)),
    ("Content-Location", some (cString fe.contentLocation)),
    ("Content-Length", some (toString fe.contentLength)),
    ("Transfer-Length", if fe.fecOti.transferLength ≠ 0 then some (toString fe.fecOti.transferLength) else none),
    ("Content-MD5", if fe.contentMd5 ≠ "" then some (cString fe.contentMd5) else none),
    ("Content-Encoding", if fe.contentEncoding ≠ "" then some (cString fe.contentEncoding) else none),
    ("Content-Type", if fe.contentType ≠ "" then some (cString fe.contentType) else none),
    ("FEC-OTI-FEC-Encoding-ID", if fe.fecOti.encodingId ≠ globalFecOti.encodingId then
      some (toString fe.fecOti.encodingId.code) else none),
    ("FEC-OTI-FEC-Instance-ID", if fe.fecOti.instanceId ≠ 0 ∧ fe.fecOti.instanceId ≠ globalFecOti.instanceId then
      some (toString fe.fecOti.instanceId) else none),
    ("FEC-OTI-Maximum-Source-Block-Length", if fe.fecOti.maxSourceBlockLength ≠ 0 ∧
      fe.fecOti.maxSourceBlockLength ≠ globalFecOti.maxSourceBlockLength then
        some (toString fe.fecOti.maxSourceBlockLength) else none),
    ("FEC-OTI-Encoding-Symbol-Length", if fe.fecOti.encodingSymbolLength ≠ 0 ∧
      fe.fecOti.encodingSymbolLength ≠ globalFecOti.encodingSymbolLength then
        some (toString fe.fecOti.encodingSymbolLength) else none),
    ("FEC-OTI-Max-Number-of-Encoding-Symbols", none),
    ("mbms2012:File-ETag", if fe.etag ≠ "" then some (cString fe.etag) else none)],
    (fileElement globalFecOti fe).attributes.lookup entry.1 = entry.2 := by
  simp only [List.forall_mem_cons]
  refine ⟨?_, ?_, ?_, ?_, ?_, ?_, ?_, ?_, ?_, ?_, ?_, ?_, ?_, by simp⟩ <;>
    simp [fileElement, XmlElement.attributes, List.lookup_append, lookup_attributeIf, List.lookup]

theorem parseFile_fileElement (printable : fe.Printable) (scheme : globalFecOti.encodingId = .compactNoCode) :
    parseFile globalFecOti fdtNamespace.names fdtNamespace.uri (fileElement globalFecOti fe) =
      .ok (fe.reread globalFecOti) := by
  have plain : ∀ name ∈ ["TOI", "Content-Location", "Content-Length", "Transfer-Length", "Content-MD5",
      "Content-Encoding", "Content-Type", "FEC-OTI-FEC-Encoding-ID", "FEC-OTI-FEC-Instance-ID",
      "FEC-OTI-Maximum-Source-Block-Length", "FEC-OTI-Encoding-Symbol-Length",
      "FEC-OTI-Max-Number-of-Encoding-Symbols"],
      ∀ attrName ∈ fileAttributeNames, XmlNamespaces.otherName name attrName = true := by
    decide
  have attr : ∀ name ∈ ["TOI", "Content-Location", "Content-Length", "Transfer-Length", "Content-MD5",
      "Content-Encoding", "Content-Type", "FEC-OTI-FEC-Encoding-ID", "FEC-OTI-FEC-Instance-ID",
      "FEC-OTI-Maximum-Source-Block-Length", "FEC-OTI-Encoding-Symbol-Length",
      "FEC-OTI-Max-Number-of-Encoding-Symbols"],
      fdtNamespace.names.findAttribute (fileElement globalFecOti fe) name fdtNamespace.uri =
        (fileElement globalFecOti fe).attributes.lookup name :=
    fun name member => findAttribute_fileElement (plain name member)
  have written := @lookup_fileElement globalFecOti fe
  have wide : ∀ {n : Nat}, n < 2 ^ 32 → n < 2 ^ 64 := fun small => small.trans (by decide)
  have narrow : ∀ {n : Nat}, n < 2 ^ 32 → toU32 n = n := Nat.mod_eq_of_lt
  simp only [List.forall_mem_cons] at attr written
  rw [parseFile, ofElement_fileElement, parseCacheControl_fileElement printable.expires, findAttribute_etag]
  have contentLength : numberOr 0 (some (toString fe.contentLength)) = fe.contentLength := by
    rw [numberOr_toString (wide printable.contentLength), narrow printable.contentLength]
  have transferLength : numberOr fe.contentLength
      (if fe.fecOti.transferLength ≠ 0 then some (toString fe.fecOti.transferLength) else none) =
      toU32 (orDefault fe.fecOti.transferLength fe.contentLength) := by
    by_cases zero : fe.fecOti.transferLength = 0
    · rw [if_neg (not_not.mpr zero), orDefault, if_pos zero]
      exact (narrow printable.contentLength).symm
    · rw [if_pos zero, orDefault, if_neg zero]
      exact numberOr_toString (printable.transferLength.trans (by decide))
  have encodingId : schemeOr globalFecOti.encodingId
      (if fe.fecOti.encodingId ≠ globalFecOti.encodingId then some (toString fe.fecOti.encodingId.code) else none) =
      fe.fecOti.encodingId := by
    rw [if_neg (by rw [scheme, printable.scheme]; exact not_not.mpr rfl), printable.scheme]
    exact scheme
  simp only [attr, written, ok_bind, contentLength, transferLength, encodingId, textOr_if,
    numberOr_inherited printable.fecOti.instanceId, numberOr_inherited printable.fecOti.encodingSymbolLength,
    numberOr_inherited printable.fecOti.maxSourceBlockLength, strtoul_toString (wide printable.toi),
    narrow printable.toi]
  rfl

theorem parseFiles_map {entries : List FileEntry} (printable : ∀ fe ∈ entries, fe.Printable)
    (scheme : globalFecOti.encodingId = .compactNoCode) :
    parseFiles globalFecOti fdtNamespace.names fdtNamespace.uri (entries.map (fileElement globalFecOti)) =
      .ok (entries.map (FileEntry.reread globalFecOti)) := by
  have isFile : ∀ fe, fdtNamespace.names.matchesElement (fileElement globalFecOti fe) "File" fdtNamespace.uri =
      true := fun fe => by
    rw [XmlNamespaces.matchesElement, ofElement_fileElement, fileElement, XmlElement.name,
      XmlNamespaces.matchesName, splitColon_file]
    simp [FdtNamespace.names]
  induction entries with
  | nil => rfl
  | cons fe rest ih =>
    rw [List.map_cons, parseFiles, if_pos (isFile fe), parseFile_fileElement (printable fe (by simp)) scheme,
      ok_bind, ih fun other inRest => printable other (by simp [inRest])]
    rfl

/-- The attributes `to_string` gives the root element of a session's table. -/
theorem attributes_document {maxPayload : Nat} (session : fdt.globalFecOti = sessionFecOti maxPayload) :
    fdt.document.attributes =
      attributeIf (fdt.fdtNamespace ≠ .none) "xmlns" fdt.fdtNamespace.uri ++
      [("Expires", toString fdt.expires), ("FEC-OTI-FEC-Encoding-ID", toString 0),
        ("FEC-OTI-Maximum-Source-Block-Length", toString 64),
        ("FEC-OTI-Encoding-Symbol-Length", toString maxPayload),
        ("xmlns:mbms2007", mbms2007Ns), ("xmlns:mbms2012", mbms2012Ns)] := by
  rw [document, session, List.append_assoc, List.append_assoc]
  rfl

theorem ofElement_document {maxPayload : Nat} (session : fdt.globalFecOti = sessionFecOti maxPayload) :
    XmlNamespaces.ofElement fdt.document = fdt.fdtNamespace.names := by
  rw [XmlNamespaces.ofElement, attributes_document session]
  cases fdt.fdtNamespace <;> simp [attributeIf, XmlNamespaces.bindPrefix] <;> rfl

theorem splitColon_document : splitColon fdt.document.name = none :=
  show splitColon "FDT-Instance" = none by rfl

theorem findAttribute_document {maxPayload : Nat} (session : fdt.globalFecOti = sessionFecOti maxPayload)
    {name : String} (others : ∀ attrName ∈ ["xmlns", "Expires", "FEC-OTI-FEC-Encoding-ID",
      "FEC-OTI-Maximum-Source-Block-Length", "FEC-OTI-Encoding-Symbol-Length", "xmlns:mbms2007",
      "xmlns:mbms2012"], XmlNamespaces.otherName name attrName = true) :
    fdt.fdtNamespace.names.findAttribute fdt.document name fdt.fdtNamespace.uri =
      fdt.document.attributes.lookup name := by
  refine XmlNamespaces.findAttribute_plain splitColon_document fun attr member => others attr.1 ?_
  rw [attributes_document session, List.mem_append] at member
  rcases member with declared | fixed
  · unfold attributeIf at declared
    split at declared
    · rw [List.mem_singleton.mp declared]
      exact List.mem_cons_self
    · cases declared
  · simp only [List.mem_cons, List.not_mem_nil, or_false] at fixed
    rcases fixed with rfl | rfl | rfl | rfl | rfl | rfl <;> simp

theorem namespaceOfUri_uri : namespaceOfUri fdtNamespace.uri = some fdtNamespace := by
  cases fdtNamespace <;> rfl

/-- What the parsing constructor makes of a printed table. -/
theorem parse_print {env : Env} {maxPayload : Nat} (session : fdt.globalFecOti = sessionFecOti maxPayload)
    (payload : maxPayload < 2 ^ 32) (expires : fdt.expires < 2 ^ 64)
    (printable : ∀ fe ∈ fdt.fileEntries, fe.Printable)
    (preserved : env.parseXml (fdt.print env) = some fdt.document) (instanceId : Nat) :
    parse env instanceId (fdt.print env) = .ok { create instanceId fdt.globalFecOti fdt.fdtNamespace with
      fileEntries := fdt.fileEntries.map (FileEntry.reread fdt.globalFecOti)
      expires := fdt.expires } := by
  have plain : ∀ name ∈ ["Expires", "FEC-OTI-FEC-Encoding-ID", "FEC-OTI-FEC-Instance-ID",
      "FEC-OTI-Maximum-Source-Block-Length", "FEC-OTI-Encoding-Symbol-Length",
      "FEC-OTI-Max-Number-of-Encoding-Symbols"], ∀ attrName ∈ ["xmlns", "Expires", "FEC-OTI-FEC-Encoding-ID",
      "FEC-OTI-Maximum-Source-Block-Length", "FEC-OTI-Encoding-Symbol-Length", "xmlns:mbms2007",
      "xmlns:mbms2012"], XmlNamespaces.otherName name attrName = true := by
    decide
  have attr := fun name member => findAttribute_document session (plain name member)
  have written : ∀ entry ∈ [("Expires", some (toString fdt.expires)), ("FEC-OTI-FEC-Encoding-ID", some (toString 0)),
      ("FEC-OTI-FEC-Instance-ID", none), ("FEC-OTI-Maximum-Source-Block-Length", some (toString 64)),
      ("FEC-OTI-Encoding-Symbol-Length", some (toString maxPayload)),
      ("FEC-OTI-Max-Number-of-Encoding-Symbols", none)],
      fdt.document.attributes.lookup entry.1 = entry.2 := by
    rw [attributes_document session]
    simp only [List.forall_mem_cons]
    refine ⟨?_, ?_, ?_, ?_, ?_, ?_, by simp⟩ <;>
      simp [List.lookup_append, lookup_attributeIf, List.lookup]
  have home : fdt.fdtNamespace.names.elementNamespace fdt.document = fdt.fdtNamespace.uri := by
    rw [XmlNamespaces.elementNamespace, splitColon_document]
    rfl
  have root : fdt.fdtNamespace.names.matchesName fdt.document.name "FDT-Instance" fdt.fdtNamespace.uri = true := by
    rw [XmlNamespaces.matchesName, splitColon_document]
    simp [FdtNamespace.names, document, XmlElement.name]
  simp only [List.forall_mem_cons] at attr written
  have global : ({
      encodingId := schemeOr .compactNoCode (some (toString 0))
      instanceId := numberOr 0 none
      maxSourceBlockLength := numberOr 0 (some (toString 64))
      encodingSymbolLength := numberOr 0 (some (toString maxPayload))
      maxNumberOfEncodingSymbols := numberOr 0 none } : FecOti) = fdt.globalFecOti := by
    rw [session, numberOr_toString (payload.trans (by decide)), numberOr_toString (by decide), schemeOr,
      strtoul_toString (by decide), show toU32 maxPayload = maxPayload from Nat.mod_eq_of_lt payload]
    rfl
  rw [parse, preserved, inBounds_some, ok_bind, ofElement_document session]
  simp only [home, root, namespaceOfUri_uri, attr, written, inBounds_some, ok_bind, stoull_toString expires, global]
  have files := @parseFiles_map _ fdt.fdtNamespace _ printable
    (show fdt.globalFecOti.encodingId = .compactNoCode by rw [session]; rfl)
  change (parseFiles fdt.globalFecOti fdt.fdtNamespace.names fdt.fdtNamespace.uri
    (fdt.fileEntries.map (fileElement fdt.globalFecOti)) >>= _) = _
  rw [files]
  rfl

end FileDeliveryTable

/-- What makes an entry come back unchanged: every text ends where its C string
does, every number is written with all of its bits, what the printer leaves out
is what the parser fills in, and the expiry is in the one place that is written. -/
structure FileEntry.Survives (globalFecOti : FecOti) (fe : FileEntry) : Prop where
  texts : ∀ text ∈ [fe.contentLocation, fe.contentMd5, fe.contentType, fe.contentEncoding, fe.etag],
    '\x00' ∉ text.toList
  transferLength : fe.fecOti.transferLength < 2 ^ 32
  encodingSymbolLength : fe.fecOti.encodingSymbolLength = 0 → globalFecOti.encodingSymbolLength = 0
  maxSourceBlockLength : fe.fecOti.maxSourceBlockLength = 0 → globalFecOti.maxSourceBlockLength = 0
  maxNumberOfEncodingSymbols : fe.fecOti.maxNumberOfEncodingSymbols = globalFecOti.maxNumberOfEncodingSymbols
  expires : fe.cacheControl.noCache = false ∧ fe.cacheControl.cacheExpires = some fe.expires ∨
    fe.cacheControl.cacheExpires = none ∧ fe.expires = 0

theorem orDefault_eq_self {n default : Nat} : n = orDefault n default ↔ (n = 0 → default = 0) := by
  unfold orDefault
  split
  · next zero => simp [zero, eq_comm]
  · next more => simp [more]

/-- The transfer length is parsed into 32 bits. -/
theorem FileEntry.Printable.transferLength_iff {fe : FileEntry} (printable : fe.Printable) :
    fe.fecOti.transferLength = toU32 (orDefault fe.fecOti.transferLength fe.contentLength) ↔
      fe.fecOti.transferLength < 2 ^ 32 := by
  have empty := printable.empty
  unfold orDefault toU32
  split
  · next zero =>
    rw [zero, empty zero]
    decide
  · omega

/-- The expiry is written only in the Cache-Control element. -/
theorem FileEntry.expires_iff {fe : FileEntry} {written : Option Nat} (same : written =
      if fe.cacheControl.noCache then none else fe.cacheControl.cacheExpires.map fun _ => fe.expires) :
    fe.expires = written.getD 0 ∧ fe.cacheControl.cacheExpires = written ↔
      fe.cacheControl.noCache = false ∧ fe.cacheControl.cacheExpires = some fe.expires ∨
        fe.cacheControl.cacheExpires = none ∧ fe.expires = 0 := by
  subst same
  cases fe.cacheControl.noCache <;> cases expires : fe.cacheControl.cacheExpires <;> simp

theorem FileEntry.equals_reread {globalFecOti : FecOti} {fe : FileEntry} (printable : fe.Printable) :
    fe.equals (fe.reread globalFecOti) = true ↔ fe.Survives globalFecOti := by
  have expires := fe.expires_iff rfl
  have text : ∀ text, text = cString text ↔ '\x00' ∉ text.toList := fun text => eq_comm.trans cString_eq_self
  simp only [equals, reread, FecOti.equals, Bool.and_eq_true, beq_iff_eq, text, printable.transferLength_iff,
    orDefault_eq_self, true_and]
  constructor
  · rintro ⟨⟨⟨⟨⟨⟨⟨⟨date, _⟩, ⟨⟨length, symbols⟩, blocks⟩, number⟩, cache⟩, location⟩, md5⟩, type⟩, encoding⟩, etag⟩
    refine ⟨?_, length, symbols, blocks, number, expires.mp ⟨date, cache⟩⟩
    simp only [List.forall_mem_cons]
    exact ⟨location, md5, type, encoding, etag, by simp⟩
  · rintro ⟨texts, length, symbols, blocks, number, valid⟩
    obtain ⟨date, cache⟩ := expires.mpr valid
    simp only [List.forall_mem_cons] at texts
    obtain ⟨location, md5, type, encoding, etag, _⟩ := texts
    exact ⟨⟨⟨⟨⟨⟨⟨⟨date, trivial⟩, ⟨⟨length, symbols⟩, blocks⟩, number⟩, cache⟩, location⟩, md5⟩, type⟩, encoding⟩, etag⟩

/-- A table a transmitter can hold. -/
structure FileDeliveryTable.HeldByTransmitter (env : Env) (fdt : FileDeliveryTable) : Prop where
  globalFecOti : ∃ maxPayload < 2 ^ 32, fdt.globalFecOti = sessionFecOti maxPayload
  expires : fdt.expires < 2 ^ 64
  entries : ∀ fe ∈ fdt.fileEntries, fe.MadeForSending env

/-- The parsing constructor gets the table back, under whatever instance ID. -/
def FileDeliveryTable.ParsesBack (env : Env) (fdt : FileDeliveryTable) : Prop :=
  ∀ instanceId, ∃ parsed, parse env instanceId (fdt.print env) = .ok parsed ∧
    parsed.fdtNamespace = fdt.fdtNamespace ∧ parsed.expires = fdt.expires ∧
    parsed.globalFecOti = fdt.globalFecOti ∧
    List.Forall₂ (fun fe back => fe.equals back = true) fdt.fileEntries parsed.fileEntries

namespace FileDeliveryTable
variable {env : Env} {fdt : FileDeliveryTable}

theorem HeldByTransmitter.survives_iff (held : fdt.HeldByTransmitter env) :
    List.Forall₂ (fun fe back => fe.equals back = true) fdt.fileEntries
        (fdt.fileEntries.map (FileEntry.reread fdt.globalFecOti)) ↔
      ∀ fe ∈ fdt.fileEntries, fe.Survives fdt.globalFecOti := by
  rw [List.forall₂_map_right_iff, List.forall₂_same]
  exact forall₂_congr fun fe member => FileEntry.equals_reread (held.entries fe member).printable

theorem HeldByTransmitter.parse (held : fdt.HeldByTransmitter env)
    (preserved : env.parseXml (fdt.print env) = some fdt.document) (instanceId : Nat) :
    FileDeliveryTable.parse env instanceId (fdt.print env) =
      .ok { create instanceId fdt.globalFecOti fdt.fdtNamespace with
        fileEntries := fdt.fileEntries.map (FileEntry.reread fdt.globalFecOti)
        expires := fdt.expires } := by
  obtain ⟨maxPayload, payload, session⟩ := held.globalFecOti
  exact parse_print session payload held.expires (fun fe member => (held.entries fe member).printable)
    preserved instanceId

theorem ParsesBack.survives (back : fdt.ParsesBack env) (held : fdt.HeldByTransmitter env)
    (preserved : env.parseXml (fdt.print env) = some fdt.document) :
    ∀ fe ∈ fdt.fileEntries, fe.Survives fdt.globalFecOti := by
  obtain ⟨table, run, _, _, _, same⟩ := back 0
  rw [held.parse preserved] at run
  obtain rfl := Except.ok.inj run
  exact held.survives_iff.mp same

/-- A printed table is parsed back exactly when each of its entries survives. -/
theorem parses_back_iff (held : fdt.HeldByTransmitter env)
    (preserved : env.parseXml (fdt.print env) = some fdt.document) :
    fdt.ParsesBack env ↔ ∀ fe ∈ fdt.fileEntries, fe.Survives fdt.globalFecOti :=
  ⟨fun back => back.survives held preserved,
    fun every instanceId => ⟨_, held.parse preserved instanceId, rfl, rfl, rfl, held.survives_iff.mpr every⟩⟩

end FileDeliveryTable

/-- The entry of three bytes sent with an expiry through the data constructor. -/
def datedEntry (expires : Nat) : FileEntry where
  toi := 1
  contentLocation := "f"
  contentType := "text/plain"
  contentLength := toU32 ("abc".toUTF8.toList).length
  contentMd5 := base64Encode (Md5.digest "abc".toUTF8.toList)
  expires := expires
  fecOti := { sessionFecOti 1436 with transferLength := ("abc".toUTF8.toList).length }

def datedTable (expires : Nat) : FileDeliveryTable :=
  { FileDeliveryTable.create 1 (sessionFecOti 1436) .draft2005 with
    fileEntries := [datedEntry expires]
    expires := 3900000000 }

def datedEnv (expires : Nat) : Env := sampleEnv [(datedTable expires).document] []

theorem datedTable_held {expires : Nat} (small : expires < 2 ^ 64) :
    (datedTable expires).HeldByTransmitter (datedEnv expires) where
  globalFecOti := ⟨1436, by decide, rfl⟩
  expires := by
    change 3900000000 < 2 ^ 64
    decide
  entries := by
    intro fe member
    obtain rfl := List.mem_singleton.mp member
    have short : ("abc".toUTF8.toList).length < 2 ^ 32 := by decide +kernel
    obtain ⟨blocks, made⟩ := @createBlocks_ends
      { sessionFecOti 1436 with transferLength := ("abc".toUTF8.toList).length } (by decide) (by decide) short
    have run : File.ofData (datedEnv expires) 1 (sessionFecOti 1436) "f" "text/plain" expires
        "abc".toUTF8.toList false = .ok {
          entry := datedEntry expires
          buffer := "abc".toUTF8.toList
          sourceBlocks := blocks } :=
      File.withBlocks_eq_ok.mpr ⟨blocks, made, rfl⟩
    exact .data (by decide) small ⟨by decide, by decide, by decide, by decide⟩ (short.trans (by decide)) run

theorem datedTable_preserved (expires : Nat) :
    (datedEnv expires).parseXml ((datedTable expires).print (datedEnv expires)) =
      some (datedTable expires).document := by
  change List.find? _ _ = _
  exact List.find?_cons_of_pos (decide_eq_true rfl)

/-- A description whose content is sent compressed, in symbols of its own size, and may be cached for a while. -/
def packedDescription : FileDescription where
  entry := {
    toi := 1
    contentLocation := "a.txt"
    contentType := "text/plain"
    contentEncoding := "gzip"
    etag := "v1"
    expires := 3900000000
    cacheControl := { cacheExpires := some 3900000000 }
    fecOti := { sessionFecOti 1436 with encodingSymbolLength := 10, maxSourceBlockLength := 4 } }
  data := []
  toi_lt := by decide
  noCode := rfl
  digest := Or.inl rfl

/-- A description whose content is sent as it is, one byte a symbol and one symbol a block. -/
def spreadDescription : FileDescription where
  entry := {
    toi := 2
    contentLocation := "b.txt"
    contentLength := 3
    contentMd5 := base64Encode (Md5.digest [97, 98, 99])
    expires := 3800000000
    cacheControl := { cacheExpires := some 3800000000 }
    fecOti := { sessionFecOti 1436 with encodingSymbolLength := 1, maxSourceBlockLength := 1 } }
  data := [97, 98, 99]
  toi_lt := by decide
  noCode := rfl
  digest := Or.inr ⟨_, Md5.length_digest _, rfl⟩

/-- What is listed of a description when its transfer takes so many bytes. -/
def FileDescription.listed (fd : FileDescription) (transferLength : Nat) : FileEntry :=
  { fd.entry with fecOti := { fd.entry.fecOti with transferLength := transferLength } }

def describedTable : FileDeliveryTable :=
  { FileDeliveryTable.create 1 (sessionFecOti 1436) .draft2005 with
    fileEntries := [packedDescription.listed 20, spreadDescription.listed 3]
    expires := 3900000000 }

def describedEnv : Env := sampleEnv [describedTable.document] []

theorem listed_made {fd : FileDescription} {transferLength : Nat} (date : fd.entry.expires < 2 ^ 64)
    (range : fd.entry.fecOti.InRange) (short : fd.data.length < 2 ^ 48) (length : fd.entry.contentLength = toU32 fd.data.length)
    (made : (File.ofDescription describedEnv fd).toOption.map File.entry = some (fd.listed transferLength)) :
    (fd.listed transferLength).MadeForSending describedEnv := by
  obtain ⟨f, run, entry⟩ := Option.map_eq_some_iff.mp made
  rw [← entry]
  exact .description date range short length (toOption_eq_some.mp run)

theorem describedTable_held : describedTable.HeldByTransmitter describedEnv where
  globalFecOti := ⟨1436, by decide, rfl⟩
  expires := by
    change 3900000000 < 2 ^ 64
    decide
  entries := by
    intro fe member
    rcases List.mem_pair.mp member with rfl | rfl
    · exact listed_made (by decide) ⟨by decide, by decide, by decide, by decide⟩ (by decide) rfl (by decide +kernel)
    · exact listed_made (by decide) ⟨by decide, by decide, by decide, by decide⟩ (by decide) rfl (by decide +kernel)

theorem parses_back_iff_described : describedTable.ParsesBack describedEnv := by
  have preserved : describedEnv.parseXml (describedTable.print describedEnv) = some describedTable.document := by
    change List.find? _ _ = _
    exact List.find?_cons_of_pos (decide_eq_true rfl)
  refine (FileDeliveryTable.parses_back_iff describedTable_held preserved).mpr fun fe member => ?_
  rcases List.mem_pair.mp member with rfl | rfl <;>
  · exact ⟨by decide +kernel, by decide, by decide, by decide, rfl, Or.inl ⟨rfl, rfl⟩⟩

/-- The expiry given to the data constructor is not printed. -/
theorem not_parses_back : ¬ ∀ (env : Env) (fdt : FileDeliveryTable), fdt.HeldByTransmitter env →
    env.parseXml (fdt.print env) = some fdt.document → fdt.ParsesBack env := fun all => by
  have back := all _ (datedTable 100) (datedTable_held (by decide)) (datedTable_preserved 100)
  have survives := back.survives (datedTable_held (by decide)) (datedTable_preserved 100)
  rcases (survives _ (List.mem_singleton.mpr rfl)).expires with ⟨_, dated⟩ | ⟨_, undated⟩
  · cases dated
  · exact absurd undated (by decide)

end Libflute

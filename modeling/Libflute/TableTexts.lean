import Libflute.FdtSafety
import Libflute.Scope

/-! What the parser looks up in a document with expanded names, and the table it says. -/

namespace Libflute

/-- The texts of the FEC attributes of an element. -/
structure FecTexts where
  encodingId : Option String
  instanceId : Option String
  maxSourceBlockLength : Option String
  encodingSymbolLength : Option String
  maxNumberOfEncodingSymbols : Option String
  deriving DecidableEq

/-- The texts of a File element. Of its Cache-Control element they have whether
there is a no-cache element in it, and the text of an Expires element. -/
structure FileTexts where
  toi : Option String
  contentLocation : Option String
  contentLength : Option String
  transferLength : Option String
  contentMd5 : Option String
  contentType : Option String
  contentEncoding : Option String
  etag : Option String
  fec : FecTexts
  cacheControl : Option (Bool × Option (Option String))
  deriving DecidableEq

/-- The texts of a document. -/
structure TableTexts where
  name : String × String
  expires : Option String
  fec : FecTexts
  files : List FileTexts
  deriving DecidableEq

namespace ExpandedElement

/-- The value of an attribute. -/
def value (t : ExpandedElement) (uri name : String) : Option String := t.attributes.lookup (uri, name)

def child (t : ExpandedElement) (uri name : String) : Option ExpandedElement :=
  t.children.find? fun child => child.name = (uri, name)

def fecTexts (fdtNs : String) (t : ExpandedElement) : FecTexts where
  encodingId := t.value fdtNs "FEC-OTI-FEC-Encoding-ID"
  instanceId := t.value fdtNs "FEC-OTI-FEC-Instance-ID"
  maxSourceBlockLength := t.value fdtNs "FEC-OTI-Maximum-Source-Block-Length"
  encodingSymbolLength := t.value fdtNs "FEC-OTI-Encoding-Symbol-Length"
  maxNumberOfEncodingSymbols := t.value fdtNs "FEC-OTI-Max-Number-of-Encoding-Symbols"

def fileTexts (fdtNs : String) (t : ExpandedElement) : FileTexts where
  toi := t.value fdtNs "TOI"
  contentLocation := t.value fdtNs "Content-Location"
  contentLength := t.value fdtNs "Content-Length"
  transferLength := t.value fdtNs "Transfer-Length"
  contentMd5 := t.value fdtNs "Content-MD5"
  contentType := t.value fdtNs "Content-Type"
  contentEncoding := t.value fdtNs "Content-Encoding"
  etag := t.value mbms2012Ns "File-ETag"
  fec := t.fecTexts fdtNs
  cacheControl := (t.child mbms2007Ns "Cache-Control").map fun cc =>
    ((cc.child mbms2007Ns "no-cache").isSome, (cc.child mbms2007Ns "Expires").map ExpandedElement.text)

/-- The texts of a document with this root. -/
def tableTexts (t : ExpandedElement) : TableTexts where
  name := t.name
  expires := t.value t.name.1 "Expires"
  fec := t.fecTexts t.name.1
  files := (t.children.filter fun child => child.name = (t.name.1, "File")).map (fileTexts t.name.1)

end ExpandedElement

namespace FileDeliveryTable

def FecTexts.fecOti (texts : FecTexts) (default : FecOti) (transferLength : Nat) : FecOti where
  encodingId := schemeOr default.encodingId texts.encodingId
  instanceId := numberOr default.instanceId texts.instanceId
  transferLength := transferLength
  encodingSymbolLength := numberOr default.encodingSymbolLength texts.encodingSymbolLength
  maxSourceBlockLength := numberOr default.maxSourceBlockLength texts.maxSourceBlockLength
  maxNumberOfEncodingSymbols := numberOr default.maxNumberOfEncodingSymbols texts.maxNumberOfEncodingSymbols

/-- The Cache-Control that a File element says, unless its Expires element has no text. -/
def cacheControlOf : Option (Bool × Option (Option String)) → Option CacheControl
  | none => some {}
  | some (noCache, none) => some { noCache := noCache }
  | some (noCache, some expires) => expires.map fun text => { noCache := noCache, cacheExpires := some (strtoul text) }

/-- The entry that a File element says. -/
def entryOf (globalFecOti : FecOti) (texts : FileTexts) : Option FileEntry := do
  let toi ← texts.toi
  let contentLocation ← texts.contentLocation
  let cacheControl ← cacheControlOf texts.cacheControl
  let contentLength := numberOr 0 texts.contentLength
  pure {
    toi := toU32 (strtoul toi)
    contentLocation := contentLocation
    contentLength := contentLength
    contentMd5 := texts.contentMd5.getD ""
    contentType := texts.contentType.getD ""
    expires := cacheControl.cacheExpires.getD 0
    fecOti := FecTexts.fecOti texts.fec globalFecOti (numberOr contentLength texts.transferLength)
    cacheControl := cacheControl
    contentEncoding := texts.contentEncoding.getD ""
    etag := texts.etag.getD "" }

/-- The table that a document says, if it is one of a known namespace and nothing is
missing in it. -/
def tableOf (instanceId : Nat) (texts : TableTexts) : Option FileDeliveryTable :=
  if texts.name.2 = "FDT-Instance" then do
    let fdtNamespace ← namespaceOfUri texts.name.1
    let expires ← texts.expires
    let exp ← (stoull expires).toOption
    let globalFecOti := FecTexts.fecOti texts.fec {} 0
    let fileEntries ← texts.files.mapM (entryOf globalFecOti)
    pure { create instanceId globalFecOti fdtNamespace with fileEntries := fileEntries, expires := exp }
  else none

theorem toOption_bind {α β : Type} (x : Outcome α) (f : α → Outcome β) :
    (x >>= f).toOption = x.toOption.bind fun a => (f a).toOption := by
  cases x <;> rfl

section refinement
variable {ns : XmlNamespaces} {file : XmlElement} {t : ExpandedElement}

/-- The children that the code finds are those the names say. -/
theorem findChildElement_cases (reads : Reads ns file t) (name : String) {uri : String} (searched : Searched uri) :
    ((XmlNamespaces.ofElement file ns).findChildElement file name uri = none ∧ t.child uri name = none) ∨
    ∃ child below, (XmlNamespaces.ofElement file ns).findChildElement file name uri = some child ∧
      t.child uri name = some below ∧ Reads (.ofElement file ns) child below := by
  have found := reads.findChildElement name searched
  rw [ExpandedElement.child]
  generalize t.children.find? (fun child => child.name = (uri, name)) = below at found ⊢
  generalize (XmlNamespaces.ofElement file ns).findChildElement file name uri = child at found ⊢
  cases found with
  | none => exact Or.inl ⟨rfl, rfl⟩
  | some first => exact Or.inr ⟨_, _, rfl, rfl, first⟩

theorem parseCacheControl_toOption (reads : Reads ns file t) (fdtNs : String) :
    (parseCacheControl (.ofElement file ns) file).toOption = cacheControlOf (t.fileTexts fdtNs).cacheControl := by
  unfold parseCacheControl ExpandedElement.fileTexts
  rcases findChildElement_cases reads "Cache-Control" searched_mbms2007 with ⟨none, none'⟩ | ⟨cc, below, some, some', inner⟩
  · rw [none]
    simp only [none', Option.map_none]
    rfl
  rw [some]
  simp only [some', Option.map_some]
  have noCache : ((XmlNamespaces.ofElement cc (.ofElement file ns)).findChildElement cc "no-cache" mbms2007Ns).isSome =
      (below.child mbms2007Ns "no-cache").isSome := by
    rcases findChildElement_cases inner "no-cache" searched_mbms2007 with ⟨none, none'⟩ | ⟨_, _, some, some', _⟩
    · rw [none, none']
      rfl
    · rw [some, some']
      rfl
  rw [noCache]
  rcases findChildElement_cases inner "Expires" searched_mbms2007 with ⟨none, none'⟩ | ⟨expires, text, some, some', last⟩
  · rw [none, none']
    rfl
  · obtain ⟨_, _, _, _, sameText, _⟩ := last.inner
    rw [some, some']
    simp only [Option.map_some, sameText]
    cases text.text <;> rfl

theorem parseFile_toOption (globalFecOti : FecOti) {fdtNs : String} (searched : Searched fdtNs) (reads : Reads ns file t) :
    (parseFile globalFecOti ns fdtNs file).toOption = entryOf globalFecOti (t.fileTexts fdtNs) := by
  have value : ∀ name uri, Searched uri → name ≠ "xmlns" →
      (XmlNamespaces.ofElement file ns).findAttribute file name uri = t.value uri name :=
    fun _ _ => reads.findAttribute
  have etag := searched_mbms2012
  have cacheControl := parseCacheControl_toOption reads fdtNs
  unfold parseFile entryOf
  simp (disch := first | assumption | decide) only [value]
  rw [show (t.fileTexts fdtNs).toi = t.value fdtNs "TOI" from rfl,
    show (t.fileTexts fdtNs).contentLocation = t.value fdtNs "Content-Location" from rfl]
  cases t.value fdtNs "TOI" with
  | none => rfl
  | some toi =>
    cases t.value fdtNs "Content-Location" with
    | none => rfl
    | some contentLocation =>
      simp only [toOption_bind, cacheControl, Option.bind_eq_bind, Option.bind_some]
      rfl

theorem parseFiles_toOption (globalFecOti : FecOti) {fdtNs : String} (searched : Searched fdtNs)
    {children : List XmlElement} {below : List ExpandedElement} (reads : List.Forall₂ (Reads ns) children below) :
    (parseFiles globalFecOti ns fdtNs children).toOption =
      ((below.filter fun child => child.name = (fdtNs, "File")).map (ExpandedElement.fileTexts fdtNs)).mapM
        (entryOf globalFecOti) := by
  induction reads with
  | nil => rfl
  | @cons child t rest later first _ ih =>
    have isFile := first.matchesElement_iff searched "File"
    rw [parseFiles]
    by_cases file : t.name = (fdtNs, "File")
    · rw [if_pos (isFile.mpr file), List.filter_cons_of_pos (by simpa using file), List.map_cons, List.mapM_cons, ← ih,
        toOption_bind, parseFile_toOption globalFecOti searched first]
      simp only [toOption_bind]
      rfl
    · rw [if_neg (mt isFile.mp file), List.filter_cons_of_neg (by simpa using file), ih]

end refinement

theorem parse_unknown {env : Env} {instanceId : Nat} {buffer : List UInt8} {root : XmlElement}
    (parsed : env.parseXml buffer = some root)
    (unknown : namespaceOfUri ((XmlNamespaces.ofElement root).elementNamespace root) = none) :
    (parse env instanceId buffer).toOption = none := by
  have notFine : ∀ root' expires, env.parseXml buffer = some root' → ¬ FineRoot root' expires := by
    intro root' expires parsed' fine
    obtain rfl := Option.some.inj (parsed'.symm.trans parsed)
    exact fine.known unknown
  obtain ⟨e, run, _⟩ := parse_of_not_fineRoot instanceId notFine
  rw [run]
  rfl

/-- The table is what the document says when its names are as the code reads them. -/
theorem parse_toOption {env : Env} (instanceId : Nat) {buffer : List UInt8} {root : XmlElement}
    (parsed : env.parseXml buffer = some root) {t : ExpandedElement} (reads : Reads {} root t) :
    (parse env instanceId buffer).toOption = tableOf instanceId t.tableTexts := by
  obtain ⟨scope, agrees, named, _, _, children⟩ := reads.inner
  by_cases searched : Searched t.name.1
  · have fdtNs := (agrees.elementNamespace_iff named searched).mpr rfl
    have isTable : (XmlNamespaces.ofElement root).matchesName root.name "FDT-Instance" t.name.1 = true ↔
        t.name.2 = "FDT-Instance" := by
      rw [agrees.matchesName_iff named searched, Prod.ext_iff]
      exact and_iff_right rfl
    have value : ∀ name, name ≠ "xmlns" → (XmlNamespaces.ofElement root).findAttribute root name t.name.1 =
        t.value t.name.1 name := fun _ => reads.findAttribute searched
    unfold parse tableOf
    simp only [parsed, inBounds_some, ok_bind, fdtNs]
    rw [show t.tableTexts.name = t.name from rfl]
    by_cases isInstance : t.name.2 = "FDT-Instance"
    swap
    · rw [if_neg isInstance, Bool.eq_false_iff.mpr (mt isTable.mp isInstance)]
      rfl
    rw [if_pos isInstance, isTable.mpr isInstance]
    simp (disch := decide) only [value]
    cases namespaceOfUri t.name.1 with
    | none => rfl
    | some fdtNamespace =>
      simp only [Bool.not_true, Bool.false_eq_true, if_false, toOption_bind, parseFiles_toOption _ searched children]
      rw [show t.tableTexts.expires = t.value t.name.1 "Expires" from rfl]
      cases t.value t.name.1 "Expires" <;> rfl
  · -- the root is in no namespace of tables
    have unknown : namespaceOfUri t.name.1 = none := by
      by_contra known
      exact searched (searched_of_known known)
    have unknown' : namespaceOfUri ((XmlNamespaces.ofElement root).elementNamespace root) = none := by
      by_contra known
      have found := searched_of_known known
      exact searched ((agrees.elementNamespace_iff named found).mp rfl ▸ found)
    rw [parse_unknown parsed unknown', tableOf, show t.tableTexts.name = t.name from rfl, unknown]
    split_ifs <;> rfl

section kept
variable {root : XmlElement} {t : ExpandedElement}

/-- The code finds what the document declares of an element, where no declaration is lost. -/
theorem found_eq_declared {ns : XmlNamespaces} {scope : Scope} {element : XmlElement} (reads : Reads ns element t)
    (declared : scope.expand .innermost element = some t) {uri : String} (searched : Searched uri) {name : String}
    (noXmlns : name ≠ "xmlns") : scope.attributeValue .innermost element uri name =
      (XmlNamespaces.ofElement element ns).findAttribute element name uri := by
  rw [(Scope.value_of_expand declared).2, reads.findAttribute searched noXmlns]

theorem declared_children {scope : Scope} {children : List XmlElement} {below : List ExpandedElement}
    (expands : scope.expandAll .innermost children = some below) :
    List.Forall₂ (fun child t => scope.expand .innermost child = some t) children below := by
  induction children generalizing below with
  | nil =>
    obtain rfl := Option.some.inj expands
    exact .nil
  | cons child rest ih =>
    rw [Scope.expandAll] at expands
    obtain ⟨first, firstExpands, expands⟩ := Option.bind_eq_some_iff.mp expands
    obtain ⟨later, laterExpands, expands⟩ := Option.bind_eq_some_iff.mp expands
    obtain rfl := Option.some.inj expands
    exact .cons firstExpands (ih laterExpands)

/-- The File elements that the code finds are those the document declares. -/
theorem fileElements_of_kept {ns : XmlNamespaces} {scope : Scope} {fdtNs : String} (searched : Searched fdtNs)
    {children : List XmlElement} {below : List ExpandedElement} (reads : List.Forall₂ (Reads ns) children below)
    (declared : List.Forall₂ (fun child t => scope.expand .innermost child = some t) children below) :
    List.Forall₂ (fun (attr : String → Option String) file => ∀ name, name ≠ "xmlns" →
        attr name = fileAttribute ns fdtNs file name)
      ((children.filter fun child => scope.elementName .innermost child = some (fdtNs, "File")).map fun file =>
        scope.attributeValue .innermost file fdtNs)
      (fileElements ns fdtNs children) := by
  induction reads with
  | nil => exact .nil
  | @cons child t rest later first _ ih =>
    obtain _ | ⟨expands, others⟩ := declared
    have isFile := first.matchesElement_iff searched "File"
    have named := (Scope.value_of_expand expands).1
    rw [fileElements, List.filter_cons, List.filter_cons, named]
    by_cases file : t.name = (fdtNs, "File")
    · rw [if_pos (by simpa using file), if_pos (isFile.mpr file), List.map_cons]
      exact .cons (fun name noXmlns => found_eq_declared first expands searched noXmlns) (ih others)
    · rw [if_neg (by simpa using file), if_neg (by simpa using mt isFile.mp file)]
      exact ih others

theorem keepsNumbers_of_found {α : Type} {numbers : List (NumericField α)} {attr found : String → Option String} {a : α}
    (same : ∀ field ∈ numbers, attr field.name = found field.name)
    (numerals : ∀ field ∈ numbers, ∀ s, attr field.name = some s → Numeral field.limit s) :
    KeepsNumbers numbers attr found a := fun field member =>
  ⟨fun s present => Or.inl ⟨same field member ▸ present, numerals field member s present⟩,
    fun absent => Or.inl (same field member ▸ absent)⟩

theorem numbers_noXmlns (globalFecOti : FecOti) : (∀ field ∈ rootNumbers, field.name ≠ "xmlns") ∧
    ∀ field ∈ fileNumbers globalFecOti, field.name ≠ "xmlns" := by
  have root : ∀ field ∈ rootNumbers, field.name ≠ "xmlns" := by
    intro field member
    simp only [rootNumbers, List.mem_cons, List.not_mem_nil, or_false] at member
    rcases member with rfl | rfl | rfl | rfl | rfl <;> decide
  refine ⟨root, fun field member => ?_⟩
  simp only [fileNumbers, List.mem_cons, List.mem_map] at member
  rcases member with rfl | rfl | rfl | ⟨field, member, rfl⟩
  iterate 3 decide
  exact root field member

/-- Where no declaration is lost, the content is fine when the code finds what it needs of
each File element and the numeric attributes are numerals of their fields. -/
theorem fineContent_of_kept (well : WellNamed root) (innermost : Scope.expand .innermost {} root = some t)
    (outermost : Scope.expand .outermost {} root = some t) (searched : Searched t.name.1)
    (required : ∀ file ∈ fileElements (.ofElement root) t.name.1 root.children,
      HasRequired (.ofElement root) t.name.1 file)
    (rootNumerals : ∀ field ∈ rootNumbers, ∀ s, rootAttribute root field.name = some s → Numeral field.limit s)
    (numerals : ∀ file ∈ fileElements (.ofElement root) t.name.1 root.children, ∀ field ∈ fileNumbers (rootFecOti root),
      ∀ s, fileAttribute (.ofElement root) t.name.1 file field.name = some s → Numeral field.limit s) :
    FineContent root := by
  have reads : Reads {} root t := ⟨{}, .start, well, outermost⟩
  obtain ⟨_, agrees, named, _, _, children⟩ := reads.inner
  have fdtNs := (agrees.elementNamespace_iff named searched).mpr rfl
  have found : ∀ name, name ≠ "xmlns" → Scope.attributeValue .innermost {} root t.name.1 name = rootAttribute root name :=
    fun name noXmlns => by rw [found_eq_declared reads innermost searched noXmlns, rootAttribute, fdtNs]
  obtain ⟨noXmlns, noXmlns'⟩ := numbers_noXmlns (rootFecOti root)
  have below : (Scope.enter .innermost {} root.attributes).expandAll .innermost root.children = some t.children := by
    obtain ⟨name, attributes, text, children⟩ := root
    rw [Scope.expand] at innermost
    obtain ⟨_, _, innermost⟩ := Option.bind_eq_some_iff.mp innermost
    obtain ⟨_, _, innermost⟩ := Option.bind_eq_some_iff.mp innermost
    obtain ⟨_, expands, innermost⟩ := Option.bind_eq_some_iff.mp innermost
    obtain rfl := Option.some.inj innermost
    exact expands
  have files : List.Forall₂ (fun attr file => ∀ name, name ≠ "xmlns" → attr name = fileAttribute (.ofElement root) t.name.1 file name)
      (declaredFiles root t.name.1) (fileElements (.ofElement root) t.name.1 root.children) :=
    fileElements_of_kept searched children (declared_children below)
  refine ⟨by rwa [fdtNs], t.name.1, t.name.2, (Scope.value_of_expand innermost).1, ?_, ?_⟩
  · rw [fdtNs]
    refine List.forall₂_iff_get.mpr ?_
    obtain ⟨length, each⟩ := List.forall₂_iff_get.mp files
    refine ⟨length, fun i inside inside' => ?_⟩
    have member := List.get_mem (fileElements (.ofElement root) t.name.1 root.children) ⟨i, inside'⟩
    have same := each i inside inside'
    refine ⟨?_, same _ (by decide), keepsNumbers_of_found (fun field inFields => same _ (noXmlns' field inFields)) ?_⟩
    · rw [same "TOI" (by decide)]
      exact (required _ member).toi
    · intro field inFields s present
      rw [same _ (noXmlns' field inFields)] at present
      exact numerals _ member field inFields s present
  · refine keepsNumbers_of_found (fun field inFields => found _ (noXmlns field inFields)) fun field inFields s present => ?_
    rw [found _ (noXmlns field inFields)] at present
    exact rootNumerals field inFields s present

end kept

end FileDeliveryTable

end Libflute

import Libflute.Env

namespace Libflute

inductive FdtNamespace
  | none | rfc3926 | draft2005 | consolidatedV2
  deriving DecidableEq, Repr

/-- The namespace a table is written in. -/
def FdtNamespace.uri : FdtNamespace → String
  | none => ""
  | rfc3926 => "http://www.example.com/flute"
  | draft2005 => "urn:IETF:metadata:2005:FLUTE:FDT"
  | consolidatedV2 => "urn:3GPP:metadata:2022:FLUTE:FDT"

def mbms2007Ns : String := "urn:3GPP:metadata:2007:MBMS:FLUTE:FDT"

def mbms2012Ns : String := "urn:3GPP:metadata:2012:MBMS:FLUTE:FDT"

structure CacheControl where
  noCache : Bool := false
  cacheExpires : Option Nat := none
  deriving DecidableEq, Repr

structure FileEntry where
  toi : Nat := 0
  contentLocation : String := ""
  contentLength : Nat := 0
  contentMd5 : String := ""
  contentType : String := ""
  expires : Nat := 0
  fecOti : FecOti := {}
  cacheControl : CacheControl := {}
  contentEncoding : String := ""
  etag : String := ""
  deriving DecidableEq, Repr

structure FileDeliveryTable where
  instanceId : Nat
  instanceIdSent : Nat
  fileEntries : List FileEntry := []
  globalFecOti : FecOti := {}
  expires : Nat := 0
  fdtNamespace : FdtNamespace := .none
  deriving DecidableEq, Repr

namespace FileDeliveryTable

/-- The constructor of an empty table. -/
def create (instanceId : Nat) (fecOti : FecOti) (fdtNamespace : FdtNamespace) : FileDeliveryTable where
  instanceId := instanceId
  instanceIdSent := (instanceId + 2 ^ 32 - 1) % 2 ^ 32
  globalFecOti := fecOti
  fdtNamespace := fdtNamespace

/-- The first change after an instance was sent starts the next instance. -/
def bump (fdt : FileDeliveryTable) : FileDeliveryTable :=
  if fdt.instanceId = fdt.instanceIdSent then { fdt with instanceId := (fdt.instanceId + 1) % 2 ^ 32 } else fdt

def add (fdt : FileDeliveryTable) (fe : FileEntry) : FileDeliveryTable :=
  { fdt.bump with fileEntries := fdt.fileEntries ++ [fe] }

def remove (fdt : FileDeliveryTable) (toi : Nat) : FileDeliveryTable :=
  { fdt.bump with fileEntries := fdt.fileEntries.filter fun fe => fe.toi ≠ toi }

def sent (fdt : FileDeliveryTable) : FileDeliveryTable := { fdt with instanceIdSent := fdt.instanceId }

def setExpires (fdt : FileDeliveryTable) (exp : Nat) : FileDeliveryTable := { fdt with expires := exp }

/-- Attributes that are written only when a condition holds. -/
def attributeIf (condition : Bool) (name value : String) : List (String × String) :=
  if condition then [(name, value)] else []

def cacheControlElement (file : FileEntry) : List XmlElement :=
  if file.cacheControl.noCache || (file.cacheControl.cacheExpires).isSome then
    [.mk "mbms2007:Cache-Control" [] none
      [if file.cacheControl.noCache then .mk "mbms2007:no-cache" [] (some "true") []
        else .mk "mbms2007:Expires" [] (some (toString file.expires)) []]]
  else []

def fileElement (globalFecOti : FecOti) (file : FileEntry) : XmlElement :=
  .mk "File"
    ([("TOI", toString file.toi), ("Content-Location", cString file.contentLocation),
      ("Content-Length", toString file.contentLength)] ++
    attributeIf (file.fecOti.transferLength ≠ 0) "Transfer-Length" (toString file.fecOti.transferLength) ++
    attributeIf (file.contentMd5 ≠ "") "Content-MD5" (cString file.contentMd5) ++
    attributeIf (file.contentEncoding ≠ "") "Content-Encoding" (cString file.contentEncoding) ++
    attributeIf (file.contentType ≠ "") "Content-Type" (cString file.contentType) ++
    attributeIf (file.fecOti.encodingId ≠ globalFecOti.encodingId)
      "FEC-OTI-FEC-Encoding-ID" (toString file.fecOti.encodingId.code) ++
    attributeIf (file.fecOti.instanceId ≠ 0 ∧ file.fecOti.instanceId ≠ globalFecOti.instanceId)
      "FEC-OTI-FEC-Instance-ID" (toString file.fecOti.instanceId) ++
    attributeIf (file.fecOti.maxSourceBlockLength ≠ 0 ∧
        file.fecOti.maxSourceBlockLength ≠ globalFecOti.maxSourceBlockLength)
      "FEC-OTI-Maximum-Source-Block-Length" (toString file.fecOti.maxSourceBlockLength) ++
    attributeIf (file.fecOti.encodingSymbolLength ≠ 0 ∧
        file.fecOti.encodingSymbolLength ≠ globalFecOti.encodingSymbolLength)
      "FEC-OTI-Encoding-Symbol-Length" (toString file.fecOti.encodingSymbolLength) ++
    attributeIf (file.etag ≠ "") "mbms2012:File-ETag" (cString file.etag))
    none (cacheControlElement file)

/-- The document `to_string` prints. -/
def document (fdt : FileDeliveryTable) : XmlElement :=
  .mk "FDT-Instance"
    (attributeIf (fdt.fdtNamespace ≠ .none) "xmlns" fdt.fdtNamespace.uri ++
    [("Expires", toString fdt.expires),
      ("FEC-OTI-FEC-Encoding-ID", toString fdt.globalFecOti.encodingId.code)] ++
    attributeIf (fdt.globalFecOti.instanceId ≠ 0)
      "FEC-OTI-FEC-Instance-ID" (toString fdt.globalFecOti.instanceId) ++
    [("FEC-OTI-Maximum-Source-Block-Length", toString fdt.globalFecOti.maxSourceBlockLength),
      ("FEC-OTI-Encoding-Symbol-Length", toString fdt.globalFecOti.encodingSymbolLength),
      ("xmlns:mbms2007", mbms2007Ns), ("xmlns:mbms2012", mbms2012Ns)])
    none (fdt.fileEntries.map (fileElement fdt.globalFecOti))

def print (env : Env) (fdt : FileDeliveryTable) : List UInt8 := env.printXml fdt.document

/-- A numeric attribute that may be absent. -/
def numberOr (default : Nat) (value : Option String) : Nat :=
  match value with
  | some s => toU32 (strtoul s)
  | none => default

def schemeOr (default : FecScheme) (value : Option String) : FecScheme :=
  match value with
  | some s => .ofCode (strtoul s)
  | none => default

/-- The Cache-Control element of a File element. An Expires element without
text gives a null pointer to `strtoul`. -/
def parseCacheControl (fileNs : XmlNamespaces) (file : XmlElement) : Outcome CacheControl :=
  match fileNs.findChildElement file "Cache-Control" mbms2007Ns with
  | none => pure {}
  | some cc => do
    let ccNs := XmlNamespaces.ofElement cc fileNs
    let noCache := (ccNs.findChildElement cc "no-cache" mbms2007Ns).isSome
    match ccNs.findChildElement cc "Expires" mbms2007Ns with
    | none => pure { noCache := noCache }
    | some expires => do
      let text ← inBounds expires.text
      pure { noCache := noCache, cacheExpires := some (strtoul text) }

def parseFile (globalFecOti : FecOti) (rootNs : XmlNamespaces) (fdtNs : String) (file : XmlElement) :
    Outcome FileEntry :=
  let fileNs := XmlNamespaces.ofElement file rootNs
  let attr := fun name => fileNs.findAttribute file name fdtNs
  match attr "TOI" with
  | none => throwLiteral "Missing TOI attribute on File element"
  | some toi =>
    match attr "Content-Location" with
    | none => throwLiteral "Missing Content-Location attribute on File element"
    | some contentLocation => do
      let contentLength := numberOr 0 (attr "Content-Length")
      let cacheControl ← parseCacheControl fileNs file
      pure {
        toi := toU32 (strtoul toi)
        contentLocation := contentLocation
        contentLength := contentLength
        contentMd5 := (attr "Content-MD5").getD ""
        contentType := (attr "Content-Type").getD ""
        expires := cacheControl.cacheExpires.getD 0
        fecOti := {
          encodingId := schemeOr globalFecOti.encodingId (attr "FEC-OTI-FEC-Encoding-ID")
          instanceId := numberOr globalFecOti.instanceId (attr "FEC-OTI-FEC-Instance-ID")
          transferLength := numberOr contentLength (attr "Transfer-Length")
          encodingSymbolLength :=
            numberOr globalFecOti.encodingSymbolLength (attr "FEC-OTI-Encoding-Symbol-Length")
          maxSourceBlockLength :=
            numberOr globalFecOti.maxSourceBlockLength (attr "FEC-OTI-Maximum-Source-Block-Length")
          maxNumberOfEncodingSymbols := numberOr globalFecOti.maxNumberOfEncodingSymbols
            (attr "FEC-OTI-Max-Number-of-Encoding-Symbols") }
        cacheControl := cacheControl
        contentEncoding := (attr "Content-Encoding").getD ""
        etag := (fileNs.findAttribute file "File-ETag" mbms2012Ns).getD "" }

/-- The loop over the File elements among the children of the root. -/
def parseFiles (globalFecOti : FecOti) (rootNs : XmlNamespaces) (fdtNs : String) :
    List XmlElement → Outcome (List FileEntry)
  | [] => pure []
  | child :: rest =>
    if rootNs.matchesElement child "File" fdtNs then do
      let fe ← parseFile globalFecOti rootNs fdtNs child
      let later ← parseFiles globalFecOti rootNs fdtNs rest
      pure (fe :: later)
    else parseFiles globalFecOti rootNs fdtNs rest

def namespaceOfUri (uri : String) : Option FdtNamespace :=
  if uri = "" then some .none
  else if uri = "http://www.example.com/flute" then some .rfc3926
  else if uri = "urn:IETF:metadata:2005:FLUTE:FDT" then some .draft2005
  else if uri = "urn:3GPP:metadata:2022:FLUTE:FDT" then some .consolidatedV2
  else none

/-- The parsing constructor. A document without a root element and a root
without Expires are used through null pointers. -/
def parse (env : Env) (instanceId : Nat) (buffer : List UInt8) : Outcome FileDeliveryTable := do
  let fdtInstance ← inBounds (env.parseXml buffer)
  let rootNs := XmlNamespaces.ofElement fdtInstance
  let fdtNs := rootNs.elementNamespace fdtInstance
  if !rootNs.matchesName fdtInstance.name "FDT-Instance" fdtNs then
    throwLiteral "Root element is not FDT-Instance"
  else
    match namespaceOfUri fdtNs with
    | none => throwLiteral "FDT namespace not recognised"
    | some fdtNamespace => do
      let attr := fun name => rootNs.findAttribute fdtInstance name fdtNs
      let expiresText ← inBounds (attr "Expires")
      let expires ← stoull expiresText
      let globalFecOti : FecOti := {
        encodingId := schemeOr .compactNoCode (attr "FEC-OTI-FEC-Encoding-ID")
        instanceId := numberOr 0 (attr "FEC-OTI-FEC-Instance-ID")
        maxSourceBlockLength := numberOr 0 (attr "FEC-OTI-Maximum-Source-Block-Length")
        encodingSymbolLength := numberOr 0 (attr "FEC-OTI-Encoding-Symbol-Length")
        maxNumberOfEncodingSymbols := numberOr 0 (attr "FEC-OTI-Max-Number-of-Encoding-Symbols") }
      let fileEntries ← parseFiles globalFecOti rootNs fdtNs fdtInstance.children
      pure { create instanceId globalFecOti fdtNamespace with
        fileEntries := fileEntries, expires := expires }

@[simp] theorem bump_fileEntries (fdt : FileDeliveryTable) : fdt.bump.fileEntries = fdt.fileEntries := by
  unfold bump
  split <;> rfl

@[simp] theorem add_fileEntries (fdt : FileDeliveryTable) (fe : FileEntry) :
    (fdt.add fe).fileEntries = fdt.fileEntries ++ [fe] := rfl

@[simp] theorem remove_fileEntries (fdt : FileDeliveryTable) (toi : Nat) :
    (fdt.remove toi).fileEntries = fdt.fileEntries.filter fun fe => fe.toi ≠ toi := rfl

@[simp] theorem sent_fileEntries (fdt : FileDeliveryTable) : fdt.sent.fileEntries = fdt.fileEntries := rfl

@[simp] theorem setExpires_fileEntries (fdt : FileDeliveryTable) (exp : Nat) :
    (fdt.setExpires exp).fileEntries = fdt.fileEntries := rfl

/-- The same table but for its expiry. -/
def Reissues (table fdt : FileDeliveryTable) : Prop := ∃ exp, table = fdt.setExpires exp

namespace Reissues
variable {table fdt : FileDeliveryTable}

theorem refl (fdt : FileDeliveryTable) : fdt.Reissues fdt := ⟨fdt.expires, rfl⟩

theorem fileEntries (same : table.Reissues fdt) : table.fileEntries = fdt.fileEntries := by
  obtain ⟨exp, rfl⟩ := same
  rfl

theorem instanceId (same : table.Reissues fdt) : table.instanceId = fdt.instanceId := by
  obtain ⟨exp, rfl⟩ := same
  rfl

theorem instanceIdSent (same : table.Reissues fdt) : table.instanceIdSent = fdt.instanceIdSent := by
  obtain ⟨exp, rfl⟩ := same
  rfl

end Reissues

end FileDeliveryTable
end Libflute

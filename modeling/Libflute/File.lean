import Libflute.Library.SortedMap
import Libflute.Base64
import Libflute.EncodingSymbol
import Libflute.FileDeliveryTable

namespace Libflute

/-- `SourceBlock::Symbol`. Its `char*` is an offset into the file's buffer, or
null where `operator[]` made the symbol. -/
structure Symbol where
  data : Option Nat := none
  length : Nat := 0
  complete : Bool := false
  queued : Bool := false
  deriving DecidableEq, Repr

structure SourceBlock where
  complete : Bool := false
  symbols : SortedMap Nat Symbol := .empty
  deriving DecidableEq

/-- `check_source_block_completion`. -/
def SourceBlock.checkCompletion (block : SourceBlock) : SourceBlock :=
  { block with complete := block.symbols.all Symbol.complete }

structure Partitioning where
  nofSourceSymbols : Nat
  nofSourceBlocks : Nat
  nofLargeSourceBlocks : Nat
  largeSourceBlockLength : Nat
  smallSourceBlockLength : Nat
  deriving DecidableEq, Repr

/-- Source block partitioning (RFC5052 9.1). -/
def calculatePartitioning (fecOti : FecOti) : Partitioning :=
  let nofSourceSymbols := toU32 (fecOti.transferLength ⌈/⌉ fecOti.encodingSymbolLength)
  let nofSourceBlocks := toU32 (nofSourceSymbols ⌈/⌉ fecOti.maxSourceBlockLength)
  let smallSourceBlockLength := nofSourceSymbols / nofSourceBlocks
  { nofSourceSymbols := nofSourceSymbols
    nofSourceBlocks := nofSourceBlocks
    nofLargeSourceBlocks := nofSourceSymbols - smallSourceBlockLength * nofSourceBlocks
    largeSourceBlockLength := nofSourceSymbols ⌈/⌉ nofSourceBlocks
    smallSourceBlockLength := smallSourceBlockLength }

def Partitioning.blockLength (p : Partitioning) (number : Nat) : Nat :=
  if number < p.nofLargeSourceBlocks then p.largeSourceBlockLength else p.smallSourceBlockLength

/-- The inner loop of `create_blocks`: the symbols of one block, and where the
buffer pointer and the remaining size stand behind them. -/
def createSymbols (encodingSymbolLength : Nat) : (count symbolId bufferPtr remainingSize : Nat) →
    SortedMap Nat Symbol → SortedMap Nat Symbol × Nat × Nat
  | 0, _, bufferPtr, remainingSize, symbols => (symbols, bufferPtr, remainingSize)
  | count + 1, symbolId, bufferPtr, remainingSize, symbols =>
    let symbolLength := min remainingSize encodingSymbolLength
    let symbols := symbols.insertOrAssign (symbolId % 2 ^ 16) { data := some bufferPtr, length := symbolLength }
    if remainingSize - symbolLength = 0 then
      (symbols, bufferPtr + symbolLength, remainingSize - symbolLength)
    else createSymbols encodingSymbolLength count (symbolId + 1) (bufferPtr + symbolLength)
      (remainingSize - symbolLength) symbols

/-- The outer loop of `create_blocks`. A pass over a block with a symbol in it
consumes a byte, so the remaining size bounds the passes; a pass that consumes
none is repeated without end. -/
def createBlocksFrom (encodingSymbolLength : Nat) (p : Partitioning) :
    (fuel number bufferPtr remainingSize : Nat) → SortedMap Nat SourceBlock →
    Outcome (SortedMap Nat SourceBlock)
  | fuel, number, bufferPtr, remainingSize, blocks =>
    if remainingSize = 0 then .ok blocks
    else match fuel with
      | 0 => .error .hangs
      | fuel + 1 =>
        let (symbols, bufferPtr, remainingSize) :=
          createSymbols encodingSymbolLength (p.blockLength number) 0 bufferPtr remainingSize .empty
        createBlocksFrom encodingSymbolLength p fuel ((number + 1) % 2 ^ 32) bufferPtr remainingSize
          (blocks.insertOrAssign (number % 2 ^ 16) { symbols := symbols })

def createBlocks (fecOti : FecOti) : Outcome (SortedMap Nat SourceBlock) :=
  createBlocksFrom fecOti.encodingSymbolLength (calculatePartitioning fecOti) fecOti.transferLength 0 0
    fecOti.transferLength .empty

/-- What the application gives the transmitter to send. Only the transmitter
sets the TOI, from a 16-bit counter, and only `_calculate_file_entry` sets the
Content-MD5. -/
structure FileDescription where
  tsi : Option Nat := none
  entry : FileEntry
  data : List UInt8
  toi_lt : entry.toi < 2 ^ 16
  noCode : entry.fecOti.encodingId = .compactNoCode
  digest : entry.contentMd5 = "" ∨ ∃ md5, md5.length = 16 ∧ entry.contentMd5 = base64Encode md5

structure File where
  entry : FileEntry
  buffer : List UInt8
  sourceBlocks : SortedMap Nat SourceBlock := .empty
  complete : Bool := false
  beenEncoded : Bool := false
  beenDecoded : Bool := false
  fdtInstanceId : Nat := 0
  /-- The memory the symbols point into has been freed. -/
  freed : Bool := false
  deriving DecidableEq

/-- What a call of zlib's `deflate` or `inflate` returns. -/
inductive ZStatus
  | ok | streamEnd | bufError | dataError
  deriving DecidableEq, Repr

/-- The size of the output buffer of one zlib call. -/
def zlibChunk : Nat := 16384

namespace File

def fecOti (f : File) : FecOti := f.entry.fecOti

def length (f : File) : Nat := if f.beenDecoded then f.entry.contentLength else f.fecOti.transferLength

/-- The first call of `deflate` with `Z_FINISH`. -/
def deflateFinish (stream : List UInt8) : List UInt8 × ZStatus :=
  (stream.take zlibChunk, if stream.length ≤ zlibChunk then .streamEnd else .ok)

/-- The first call of `inflate` with `Z_FINISH`. -/
def inflateFinish (stream : Option (List UInt8)) : List UInt8 × ZStatus :=
  match stream with
  | none => ([], .dataError)
  | some out => (out.take zlibChunk, if out.length ≤ zlibChunk then .streamEnd else .bufError)

/-- `encode`. When output remains, the loop calls `inflate` on the deflate
state, which is a stream error. -/
def encode (env : Env) (f : File) : Outcome File :=
  if f.beenEncoded ∨ f.entry.contentEncoding = "" then .ok f
  else if f.entry.contentEncoding = "gzip" ∨ f.entry.contentEncoding = "deflate" then do
    let input ← readBytes f.buffer f.entry.contentLength
    match deflateFinish (env.deflate input) with
    | (chunk, .streamEnd) =>
      pure { f with
        buffer := chunk
        entry := { f.entry with fecOti := { f.entry.fecOti with transferLength := chunk.length } }
        beenEncoded := true
        beenDecoded := false }
    | _ => .error (.throws .zlibMessage)
  else throwLiteral "Content-Encoding not known"

/-- `calculate_partitioning` and `create_blocks`. -/
def withBlocks (f : File) : Outcome File := do
  let sourceBlocks ← createBlocks f.fecOti
  pure { f with sourceBlocks := sourceBlocks }

/-- The constructor from an FDT entry, used for reception. -/
def ofEntry (env : Env) (entry : FileEntry) : Outcome File :=
  if env.malloc entry.fecOti.transferLength then
    withBlocks { entry := entry, buffer := env.fresh entry.fecOti.transferLength }
  else throwLiteral "Failed to allocate file buffer"

/-- The constructor from a file description, used for transmission. -/
def ofDescription (env : Env) (fd : FileDescription) : Outcome File :=
  if env.malloc fd.data.length then
    if fd.entry.fecOti.encodingId = .compactNoCode then do
      let f ← encode env {
        entry := { fd.entry with fecOti := { fd.entry.fecOti with transferLength := fd.data.length } }
        buffer := fd.data }
      withBlocks f
    else throwLiteral "Unsupported FEC scheme"
  else throwLiteral "No data allocated"

/-- The constructor from data, used for transmission. -/
def ofData (env : Env) (toi : Nat) (fecOti : FecOti) (contentLocation contentType : String)
    (expires : Nat) (data : List UInt8) (copyData : Bool) : Outcome File :=
  if copyData ∧ ¬ env.malloc data.length then throwLiteral "Failed to allocate file buffer"
  else if fecOti.encodingId = .compactNoCode then
    withBlocks {
      entry := {
        toi := toi
        contentLocation := contentLocation
        contentType := contentType
        contentLength := toU32 data.length
        contentMd5 := base64Encode (env.md5 data)
        expires := expires
        fecOti := { fecOti with transferLength := data.length } }
      buffer := data }
  else throwLiteral "Unsupported FEC scheme"

/-- Comparing the digest of the content with `c_str()` of the decoded Content-MD5. -/
def md5Matches (env : Env) (f : File) : Outcome Bool := do
  let content ← readBytes f.buffer f.length
  let contentMd5 ← base64Decode f.entry.contentMd5
  let digest ← readBytes (contentMd5 ++ [0]) 16
  pure (env.md5 content == digest)

/-- The MD5 mismatch branch: everything is to be received again. -/
def reset (f : File) : File :=
  { f with
    sourceBlocks := f.sourceBlocks.map fun _ block =>
      { complete := false, symbols := block.symbols.map fun _ symbol => { symbol with complete := false } }
    complete := false }

/-- The digest check of a complete file. What it throws leaves the file marked complete. -/
def checkDigest (env : Env) (f : File) : File × Outcome Unit :=
  if f.complete ∧ f.entry.contentMd5 ≠ "" ∧ f.entry.contentEncoding = "" then
    match md5Matches env f with
    | .error e => (f, .error e)
    | .ok true => (f, .ok ())
    | .ok false => (f.reset, .ok ())
  else (f, .ok ())

/-- `check_file_completion`. -/
def checkFileCompletion (env : Env) (f : File) : File × Outcome Unit :=
  checkDigest env { f with complete := f.sourceBlocks.all SourceBlock.complete }

def setBlock (f : File) (n : Nat) (block : SourceBlock) : File :=
  { f with sourceBlocks := f.sourceBlocks.insertOrAssign n block }

/-- `memcpy` to where a symbol points. -/
def copyTo (f : File) (data : Option Nat) (bytes : List UInt8) : Outcome (List UInt8) :=
  if bytes = [] then .ok f.buffer
  else match data with
    | none => .error .undefined
    | some offset =>
      if f.freed ∨ f.buffer.length < offset + bytes.length then .error .undefined
      else .ok (f.buffer.take offset ++ bytes ++ f.buffer.drop (offset + bytes.length))

/-- `put_symbol`. The bounds are the sizes of the maps, and `operator[]` adds
what is not there before the next test. -/
def putSymbol (env : Env) (f : File) (symbol : EncodingSymbol) : File × Outcome Unit :=
  if f.sourceBlocks.size < symbol.sourceBlockNumber then
    (f, throwLiteral "Source Block number too high")
  else
    let n := symbol.sourceBlockNumber % 2 ^ 16
    let block := (f.sourceBlocks.find? n).getD {}
    let f := f.setBlock n block
    if block.symbols.size < symbol.id then (f, throwLiteral "Encoding Symbol ID too high")
    else
      let i := symbol.id % 2 ^ 16
      let target := (block.symbols.find? i).getD {}
      let f := f.setBlock n { block with symbols := block.symbols.insertOrAssign i target }
      if target.complete then (f, .ok ())
      else
        match symbol.decodeTo target.length >>= f.copyTo target.data with
        | .error e => (f, .error e)
        | .ok buffer =>
          let done := block.symbols.insertOrAssign i { target with complete := true }
          checkFileCompletion env
            { f.setBlock n { block with symbols := done }.checkCompletion with buffer := buffer }

/-- The encoding symbol `get_next_symbols` makes of a symbol of the file. -/
def encodingSymbol (f : File) (n i : Nat) (symbol : Symbol) : EncodingSymbol where
  id := i
  sourceBlockNumber := n
  fecScheme := f.fecOti.encodingId
  encodedData := match symbol.data with
    | some offset => f.buffer.drop offset
    | none => []
  dataLen := symbol.length

/-- The body of the inner loop of `get_next_symbols`; the count is the number of
symbols taken so far. -/
def takeSymbol (nofSymbols : Nat) (f : File) (n i : Nat) (symbol : Symbol) (taken : List EncodingSymbol) :
    Symbol × List EncodingSymbol :=
  if taken.length < nofSymbols ∧ symbol.complete = false ∧ symbol.queued = false then
    ({ symbol with queued := true }, taken ++ [f.encodingSymbol n i symbol])
  else (symbol, taken)

/-- `put_symbol` for one symbol after the other, as the receiver's loop does. -/
def putSymbols (env : Env) (f : File) : List EncodingSymbol → File × Outcome Unit
  | [] => (f, .ok ())
  | symbol :: rest =>
    match f.putSymbol env symbol with
    | (f, .ok ()) => putSymbols env f rest
    | (f, .error e) => (f, .error e)

/-- The body of the outer loop of `get_next_symbols`. -/
def takeBlock (nofSymbols : Nat) (f : File) (n : Nat) (block : SourceBlock) (taken : List EncodingSymbol) :
    SourceBlock × List EncodingSymbol :=
  if taken.length < nofSymbols ∧ block.complete = false then
    let (symbols, taken) := block.symbols.mapAccum (takeSymbol nofSymbols f n) taken
    ({ block with symbols := symbols }, taken)
  else (block, taken)

def getNextSymbols (f : File) (maxSize : Nat) : Outcome (List EncodingSymbol × File) := do
  let nofSymbols ← ceilInt (subSize maxSize 4) f.fecOti.encodingSymbolLength
  let (sourceBlocks, symbols) := f.sourceBlocks.mapAccum (takeBlock nofSymbols f) []
  pure (symbols, { f with sourceBlocks := sourceBlocks })

/-- The ID is a `uint16_t`, also of an instance whose number has more bits. -/
def setFdtInstanceId (f : File) (id : Nat) : File := { f with fdtInstanceId := id % 2 ^ 16 }

/-- The body of the loop of `mark_completed`. -/
def markSymbol (env : Env) (f : File) (symbol : EncodingSymbol) (success : Bool) : File × Outcome Unit :=
  match f.sourceBlocks.find? (symbol.sourceBlockNumber % 2 ^ 16) with
  | none => (f, .ok ())
  | some block =>
    let symbols := block.symbols.modify (symbol.id % 2 ^ 16) fun s =>
      { s with queued := false, complete := success }
    checkFileCompletion env
      (f.setBlock (symbol.sourceBlockNumber % 2 ^ 16) { block with symbols := symbols }.checkCompletion)

def markCompleted (env : Env) (f : File) : List EncodingSymbol → Bool → File × Outcome Unit
  | [], _ => (f, .ok ())
  | symbol :: rest, success =>
    match f.markSymbol env symbol success with
    | (f, .ok ()) => markCompleted env f rest success
    | (f, .error e) => (f, .error e)

/-- `decode`. A stream longer than one chunk ends in the error branch, because
`inflate` with `Z_FINISH` reports a full output buffer as an error. -/
def decode (env : Env) (f : File) : File × Outcome Unit :=
  if f.beenDecoded ∨ f.entry.contentEncoding = "" then (f, .ok ())
  else if f.entry.contentEncoding = "gzip" ∨ f.entry.contentEncoding = "deflate" then
    let windowBits := if f.entry.contentEncoding = "gzip" then 31 else 15
    let input := f.buffer.take (toU32 f.fecOti.transferLength)
    match inflateFinish (env.inflate windowBits input) with
    | (chunk, .streamEnd) =>
      let f := { f with
        buffer := chunk
        entry := { f.entry with contentLength :=
          if f.entry.contentLength = 0 then toU32 chunk.length else f.entry.contentLength }
        beenDecoded := true
        beenEncoded := false
        freed := true }
      if f.entry.contentMd5 ≠ "" then
        match md5Matches env f with
        | .error e => (f, .error e)
        | .ok true => (f, .ok ())
        | .ok false => (f.reset, .ok ())
      else (f, .ok ())
    | _ => ({ f with buffer := [] }, .error (.throws .zlibMessage))
  else (f, throwLiteral "Content-Encoding not known")

end File
end Libflute

import Libflute.FreshFile
import Libflute.SampleEnv

/-! Content encoding on the sending side and decoding on the receiving side. -/

namespace Libflute

section blocks
variable {E : Nat}

theorem createSymbols_le (count : Nat) {symbolId bufferPtr remainingSize : Nat} {symbols : SortedMap Nat Symbol} :
    (createSymbols E count symbolId bufferPtr remainingSize symbols).2.2 ≤ remainingSize := by
  induction count generalizing symbolId bufferPtr remainingSize symbols with
  | zero => exact le_rfl
  | succ count ih =>
    simp only [createSymbols]
    split
    · exact Nat.sub_le _ _
    · exact ih.trans (Nat.sub_le _ _)

theorem createSymbols_lt (positive : 0 < E) {count symbolId bufferPtr remainingSize : Nat}
    {symbols : SortedMap Nat Symbol} (some : 0 < count) (more : 0 < remainingSize) :
    (createSymbols E count symbolId bufferPtr remainingSize symbols).2.2 < remainingSize := by
  obtain ⟨count, rfl⟩ := Nat.exists_eq_succ_of_ne_zero some.ne'
  simp only [createSymbols]
  split
  · change remainingSize - min remainingSize E < remainingSize
    omega
  · refine (createSymbols_le count).trans_lt ?_
    omega

/-- Where every block has a symbol and every symbol a byte, the loop ends. -/
theorem createBlocksFrom_ends (positive : 0 < E) {p : Partitioning} (lengths : ∀ n, 0 < p.blockLength n)
    {fuel number bufferPtr remainingSize : Nat} {blocks : SortedMap Nat SourceBlock}
    (enough : remainingSize ≤ fuel) :
    ∃ result, createBlocksFrom E p fuel number bufferPtr remainingSize blocks = .ok result := by
  induction fuel generalizing number bufferPtr remainingSize blocks with
  | zero =>
    rw [createBlocksFrom, if_pos (by omega)]
    exact ⟨_, rfl⟩
  | succ fuel ih =>
    rw [createBlocksFrom]
    split
    · exact ⟨_, rfl⟩
    · next more =>
      have less := @createSymbols_lt E positive _ 0 bufferPtr remainingSize .empty (lengths number)
        (Nat.pos_of_ne_zero more)
      exact ih (Nat.le_of_lt_succ (less.trans_le enough))

/-- The counts of an object whose symbols can be counted in 32 bits. -/
theorem calculatePartitioning_counts {fecOti : FecOti} (symbol : 0 < fecOti.encodingSymbolLength)
    (block : 0 < fecOti.maxSourceBlockLength) (nonempty : 0 < fecOti.transferLength)
    (few : fecOti.transferLength ⌈/⌉ fecOti.encodingSymbolLength < 2 ^ 32) :
    let p := calculatePartitioning fecOti
    p.nofSourceBlocks = p.nofSourceSymbols ⌈/⌉ fecOti.maxSourceBlockLength ∧ 0 < p.nofSourceBlocks ∧
      p.nofSourceBlocks ≤ p.nofSourceSymbols ∧ p.nofSourceSymbols < 2 ^ 32 := by
  intro p
  have symbols : p.nofSourceSymbols = fecOti.transferLength ⌈/⌉ fecOti.encodingSymbolLength :=
    Nat.mod_eq_of_lt few
  have fewer : p.nofSourceSymbols ⌈/⌉ fecOti.maxSourceBlockLength ≤ p.nofSourceSymbols := by
    rw [ceilDiv_le_iff_le_mul block]
    exact Nat.le_mul_of_pos_left _ block
  have someSymbol : 0 < p.nofSourceSymbols := by
    rw [symbols, lt_ceilDiv_iff symbol]
    omega
  have bound : p.nofSourceSymbols < 2 ^ 32 := Nat.mod_lt _ (by decide)
  have blocks : p.nofSourceBlocks = p.nofSourceSymbols ⌈/⌉ fecOti.maxSourceBlockLength :=
    Nat.mod_eq_of_lt (fewer.trans_lt bound)
  refine ⟨blocks, ?_, blocks ▸ fewer, bound⟩
  rw [blocks, lt_ceilDiv_iff block]
  omega

theorem createBlocks_ends_of_few {fecOti : FecOti} (symbol : 0 < fecOti.encodingSymbolLength)
    (block : 0 < fecOti.maxSourceBlockLength)
    (few : fecOti.transferLength ⌈/⌉ fecOti.encodingSymbolLength < 2 ^ 32) :
    ∃ blocks, createBlocks fecOti = .ok blocks := by
  rcases Nat.eq_zero_or_pos fecOti.transferLength with empty | nonempty
  · rw [createBlocks, empty, createBlocksFrom, if_pos rfl]
    exact ⟨_, rfl⟩
  obtain ⟨_, someBlock, fewer, _⟩ := calculatePartitioning_counts symbol block nonempty few
  set p := calculatePartitioning fecOti with hp
  have length : 0 < p.blockLength 0 := by
    have smallLength : 0 < p.smallSourceBlockLength := by
      rw [hp, smallSourceBlockLength_eq, ← hp]
      exact Nat.div_pos fewer someBlock
    have largeLength : 0 < p.largeSourceBlockLength := by
      rw [hp, largeSourceBlockLength_eq, ← hp, lt_ceilDiv_iff someBlock]
      omega
    unfold Partitioning.blockLength
    split <;> assumption
  rcases Partitioning.blockLength_zero_or_pos fecOti with none | lengths
  · exact absurd (none 0) length.ne'
  · exact createBlocksFrom_ends symbol lengths le_rfl

theorem createBlocks_ends {fecOti : FecOti} (symbol : 0 < fecOti.encodingSymbolLength)
    (block : 0 < fecOti.maxSourceBlockLength) (small : fecOti.transferLength < 2 ^ 32) :
    ∃ blocks, createBlocks fecOti = .ok blocks := by
  refine createBlocks_ends_of_few symbol block (lt_of_le_of_lt ?_ small)
  rw [ceilDiv_le_iff_le_mul symbol]
  exact Nat.le_mul_of_pos_left _ symbol

end blocks

namespace File
variable {env : Env}

/-- Encoding ends normally only with a stream of one chunk. -/
theorem encode_eq_ok {f g : File} (fresh : f.beenEncoded = false) (encoded : f.entry.contentEncoding ≠ "") :
    encode env f = .ok g ↔
      (f.entry.contentEncoding = "gzip" ∨ f.entry.contentEncoding = "deflate") ∧
      f.entry.contentLength ≤ f.buffer.length ∧
      (env.deflate (f.buffer.take f.entry.contentLength)).length ≤ zlibChunk ∧
      g = { f with
        buffer := env.deflate (f.buffer.take f.entry.contentLength)
        entry := { f.entry with fecOti := { f.entry.fecOti with
          transferLength := (env.deflate (f.buffer.take f.entry.contentLength)).length } }
        beenEncoded := true
        beenDecoded := false } := by
  rw [encode, if_neg (by simp [fresh, encoded])]
  by_cases known : f.entry.contentEncoding = "gzip" ∨ f.entry.contentEncoding = "deflate"
  swap
  · rw [if_neg known]
    exact iff_of_false (fun run => by cases run) (fun all => known all.1)
  rw [if_pos known, bind_eq_ok]
  constructor
  · rintro ⟨input, read, run⟩
    obtain ⟨within, rfl⟩ := readBytes_eq_ok.mp read
    by_cases short : (env.deflate (f.buffer.take f.entry.contentLength)).length ≤ zlibChunk
    · simp only [deflateFinish, if_pos short, List.take_of_length_le short] at run
      exact ⟨known, within, short, (Except.ok.inj run).symm⟩
    · simp only [deflateFinish, if_neg short] at run
      cases run
  · rintro ⟨_, within, short, rfl⟩
    refine ⟨_, readBytes_eq_ok.mpr ⟨within, rfl⟩, ?_⟩
    simp only [deflateFinish, if_pos short, List.take_of_length_le short]
    rfl

/-- The file of a description with content to encode. -/
theorem ofDescription_encoded {fd : FileDescription} {f : File} (encoded : fd.entry.contentEncoding ≠ "") :
    ofDescription env fd = .ok f ↔
      env.malloc fd.data.length = true ∧
      (fd.entry.contentEncoding = "gzip" ∨ fd.entry.contentEncoding = "deflate") ∧
      fd.entry.contentLength ≤ fd.data.length ∧
      (env.deflate (fd.data.take fd.entry.contentLength)).length ≤ zlibChunk ∧
      withBlocks {
        entry := { fd.entry with fecOti := { fd.entry.fecOti with
          transferLength := (env.deflate (fd.data.take fd.entry.contentLength)).length } }
        buffer := env.deflate (fd.data.take fd.entry.contentLength)
        beenEncoded := true } = .ok f := by
  by_cases memory : env.malloc fd.data.length = true
  swap
  · rw [ofDescription, if_neg memory]
    exact iff_of_false (fun run => by cases run) (fun all => memory all.1)
  rw [ofDescription, if_pos memory, if_pos fd.noCode, bind_eq_ok]
  constructor
  · rintro ⟨g, run, blocks⟩
    obtain ⟨known, within, short, rfl⟩ := (encode_eq_ok rfl encoded).mp run
    exact ⟨memory, known, within, short, blocks⟩
  · rintro ⟨_, known, within, short, blocks⟩
    exact ⟨_, (encode_eq_ok rfl encoded).mpr ⟨known, within, short, rfl⟩, blocks⟩

theorem withBlocks_eq_ok {f g : File} :
    f.withBlocks = .ok g ↔ ∃ blocks, createBlocks f.fecOti = .ok blocks ∧
      g = { f with sourceBlocks := blocks } := by
  rw [withBlocks, bind_eq_ok]
  constructor
  · rintro ⟨blocks, made, run⟩
    exact ⟨blocks, made, (Except.ok.inj run).symm⟩
  · rintro ⟨blocks, made, rfl⟩
    exact ⟨blocks, made, rfl⟩

/-- A digest of exactly the content of a file is found right. -/
theorem md5Matches_self {f : File} (whole : f.length = f.buffer.length)
    (stated : f.entry.contentMd5 = base64Encode (env.md5 f.buffer)) : md5Matches env f = .ok true := by
  have content : readBytes f.buffer f.length = .ok f.buffer :=
    readBytes_eq_ok.mpr ⟨whole.le, by rw [whole, List.take_length]⟩
  have digest : readBytes (env.md5 f.buffer ++ [0]) 16 = .ok (env.md5 f.buffer) :=
    readBytes_eq_ok.mpr ⟨by simp [env.md5_length], by rw [← env.md5_length f.buffer, List.take_left]⟩
  rw [md5Matches, content, ok_bind, stated, base64Decode_encode, ok_bind, digest, ok_bind, beq_self_eq_true]
  rfl

/-- A file whose stream has been decompressed. -/
def unpacked (f : File) (content : List UInt8) : File :=
  { f with
    buffer := content
    entry := { f.entry with contentLength :=
      if f.entry.contentLength = 0 then toU32 content.length else f.entry.contentLength }
    beenDecoded := true
    beenEncoded := false
    freed := true }

def windowBits (f : File) : Nat := if f.entry.contentEncoding = "gzip" then 31 else 15

/-- The stream `decode` passes to zlib. -/
def stream (f : File) : List UInt8 := f.buffer.take (toU32 f.fecOti.transferLength)

/-- Decoding a stream that decompresses to one chunk ends in the digest check. -/
theorem decode_unpacked {f : File} {content : List UInt8} (encoded : f.beenDecoded = false)
    (known : f.entry.contentEncoding = "gzip" ∨ f.entry.contentEncoding = "deflate")
    (inflated : env.inflate f.windowBits f.stream = some content) (short : content.length ≤ zlibChunk) :
    f.decode env =
      if f.entry.contentMd5 ≠ "" then
        match md5Matches env (f.unpacked content) with
        | .error e => (f.unpacked content, .error e)
        | .ok true => (f.unpacked content, .ok ())
        | .ok false => ((f.unpacked content).reset, .ok ())
      else (f.unpacked content, .ok ()) := by
  have nonempty : f.entry.contentEncoding ≠ "" := by
    rcases known with is | is <;> rw [is] <;> decide
  rw [windowBits, stream] at inflated
  rw [decode, if_neg (by simp [encoded, nonempty]), if_pos known]
  simp only [inflated, inflateFinish, if_pos short, List.take_of_length_le short]
  rfl

/-- Decoding ends normally only when the stream decompresses, with the window
bits chosen for the encoding, to at most one chunk. -/
theorem decode_eq_ok {f g : File} (encoded : f.beenDecoded = false) (some : f.entry.contentEncoding ≠ "")
    (run : f.decode env = (g, .ok ())) :
    ∃ content, env.inflate f.windowBits f.stream = Option.some content ∧ content.length ≤ zlibChunk ∧
      g.buffer = content := by
  by_cases known : f.entry.contentEncoding = "gzip" ∨ f.entry.contentEncoding = "deflate"
  swap
  · rw [decode, if_neg (by simp [encoded, some]), if_neg known] at run
    cases run
  cases inflated : env.inflate f.windowBits f.stream with
  | none =>
    rw [windowBits, stream] at inflated
    rw [decode, if_neg (by simp [encoded, some]), if_pos known] at run
    simp only [inflated, inflateFinish] at run
    cases run
  | some content =>
    by_cases short : content.length ≤ zlibChunk
    · refine ⟨content, rfl, short, ?_⟩
      rw [decode_unpacked encoded known inflated short] at run
      split at run
      · split at run
        · cases run
        · obtain ⟨rfl, _⟩ := Prod.mk.inj run
          rfl
        · obtain ⟨rfl, _⟩ := Prod.mk.inj run
          rfl
      · obtain ⟨rfl, _⟩ := Prod.mk.inj run
        rfl
    · rw [windowBits, stream] at inflated
      rw [decode, if_neg (by simp [encoded, some]), if_pos known] at run
      simp only [inflated, inflateFinish, if_neg short] at run
      cases run

/-- A stream of at most one chunk with the right digest is decoded. -/
theorem decode_content {f : File} {content : List UInt8} (encoded : f.beenDecoded = false)
    (known : f.entry.contentEncoding = "gzip" ∨ f.entry.contentEncoding = "deflate")
    (inflated : env.inflate f.windowBits f.stream = some content)
    (short : content.length ≤ zlibChunk) (length : f.entry.contentLength = content.length)
    (digest : f.entry.contentMd5 = if content = [] then "" else base64Encode (env.md5 content)) :
    ∃ g, f.decode env = (g, .ok ()) ∧ g.buffer = content ∧ g.length = content.length ∧ g.complete = f.complete := by
  have stated : (f.unpacked content).length = content.length := by
    have small : toU32 content.length = content.length := Nat.mod_eq_of_lt (short.trans_lt (by decide))
    change (if f.entry.contentLength = 0 then toU32 content.length else f.entry.contentLength) = content.length
    split
    · exact small
    · exact length
  refine ⟨f.unpacked content, ?_, rfl, stated, rfl⟩
  rw [decode_unpacked encoded known inflated short]
  by_cases empty : content = []
  · rw [if_pos empty] at digest
    rw [if_neg (by simp [digest])]
  · rw [if_neg empty] at digest
    rw [md5Matches_self (f := f.unpacked content) stated digest]
    exact ite_self _

end File

/-- A description of encoded content as its setters and `send` leave it. -/
structure FileDescription.Compressed (env : Env) (fd : FileDescription) : Prop where
  encoding : fd.entry.contentEncoding = "gzip" ∨ fd.entry.contentEncoding = "deflate"
  contentLength : fd.entry.contentLength = toU32 fd.data.length
  contentMd5 : fd.entry.contentMd5 = if fd.data = [] then "" else base64Encode (env.md5 fd.data)
  symbolLength : 0 < fd.entry.fecOti.encodingSymbolLength
  blockLength : 0 < fd.entry.fecOti.maxSourceBlockLength
  memory : env.malloc fd.data.length = true

/-- The stream `deflate` makes of some content decompresses with the window bits
of its wrapper and with no others. -/
structure Env.Decompresses (env : Env) (content : List UInt8) : Prop where
  gzip : env.inflate 31 (env.deflate content) = some content
  zlib : env.inflate 15 (env.deflate content) = none

/-- The whole stream is sent, and a receiving file that holds it gets the content back. -/
def FileDescription.Restored (env : Env) (fd : FileDescription) : Prop :=
  ∃ f, File.ofDescription env fd = .ok f ∧ f.buffer = env.deflate fd.data ∧
    f.fecOti.transferLength = (env.deflate fd.data).length ∧
    ∀ r : File, r.entry = f.entry → r.buffer = f.buffer → r.beenDecoded = false →
      ∃ r', r.decode env = (r', .ok ()) ∧ r'.buffer = fd.data ∧ r'.length = fd.data.length ∧
        r'.complete = r.complete

namespace FileDescription
variable {env : Env} {fd : FileDescription}

theorem Compressed.encoded (compressed : fd.Compressed env) : fd.entry.contentEncoding ≠ "" := by
  rcases compressed.encoding with is | is <;> rw [is] <;> decide

theorem Restored.one_chunk (compressed : fd.Compressed env) (decompresses : env.Decompresses fd.data) :
    fd.Restored env → fd.entry.contentEncoding = "gzip" ∧ (env.deflate fd.data).length ≤ zlibChunk ∧
      fd.data.length ≤ zlibChunk := by
  have encoded := compressed.encoded
  rintro ⟨f, run, stream, length, restores⟩
  obtain ⟨_, _, _, short, blocks⟩ := (File.ofDescription_encoded encoded).mp run
  obtain ⟨sourceBlocks, _, rfl⟩ := File.withBlocks_eq_ok.mp blocks
  change env.deflate (fd.data.take fd.entry.contentLength) = _ at stream
  rw [stream] at short restores
  have small : toU32 (env.deflate fd.data).length = (env.deflate fd.data).length :=
    Nat.mod_eq_of_lt (short.trans_lt (by decide))
  obtain ⟨r', decoded, content, _, _⟩ := restores _ rfl rfl rfl
  obtain ⟨out, inflated, outShort, same⟩ := File.decode_eq_ok rfl encoded decoded
  simp only [File.stream, File.windowBits, File.fecOti, small, List.take_length] at inflated
  split_ifs at inflated with gzip
  · rw [content] at same
    exact ⟨gzip, short, same ▸ outShort⟩
  · rw [decompresses.zlib] at inflated
    cases inflated

theorem Compressed.restored (compressed : fd.Compressed env) (decompresses : env.Decompresses fd.data)
    (gzip : fd.entry.contentEncoding = "gzip") (short : (env.deflate fd.data).length ≤ zlibChunk)
    (contentShort : fd.data.length ≤ zlibChunk) : fd.Restored env := by
  have encoded := compressed.encoded
  have whole : fd.entry.contentLength = fd.data.length := by
    rw [compressed.contentLength]
    exact Nat.mod_eq_of_lt (contentShort.trans_lt (by decide))
  have input : fd.data.take fd.entry.contentLength = fd.data := by rw [whole, List.take_length]
  have small : toU32 (env.deflate fd.data).length = (env.deflate fd.data).length :=
    Nat.mod_eq_of_lt (short.trans_lt (by decide))
  obtain ⟨blocks, made⟩ := @createBlocks_ends
    { fd.entry.fecOti with transferLength := (env.deflate fd.data).length }
    compressed.symbolLength compressed.blockLength (short.trans_lt (by decide))
  refine ⟨_, (File.ofDescription_encoded encoded).mpr ⟨compressed.memory, compressed.encoding, whole.le,
    by rwa [input], File.withBlocks_eq_ok.mpr ⟨blocks, by rwa [input], rfl⟩⟩, congrArg _ input,
    congrArg (fun c => (env.deflate c).length) input, ?_⟩
  intro r entry buffer undecoded
  have sameEncoding : r.entry.contentEncoding = fd.entry.contentEncoding := by rw [entry]
  refine File.decode_content undecoded (by rw [sameEncoding]; exact compressed.encoding) ?_ contentShort
    (by rw [entry]; exact whole) (by rw [entry]; exact compressed.contentMd5)
  rw [File.windowBits, if_pos (sameEncoding.trans gzip), File.stream, buffer, File.fecOti, entry]
  simp only [input, small, List.take_length]
  exact decompresses.gzip

/-- Content comes back exactly when it is compressed with gzip and neither it nor
the stream is longer than one chunk. -/
theorem restored_iff (compressed : fd.Compressed env) (decompresses : env.Decompresses fd.data) :
    fd.Restored env ↔ fd.entry.contentEncoding = "gzip" ∧ (env.deflate fd.data).length ≤ zlibChunk ∧
      fd.data.length ≤ zlibChunk :=
  ⟨Restored.one_chunk compressed decompresses,
    fun ⟨gzip, short, contentShort⟩ => compressed.restored decompresses gzip short contentShort⟩

end FileDescription

/-- What gzip makes of three bytes. -/
def gzipped : List UInt8 :=
  [0x1f, 0x8b, 8, 0, 0, 0, 0, 0, 0, 3, 0x4b, 0x4c, 0x4a, 6, 0, 0xc2, 0x41, 0x24, 0x35, 3, 0, 0, 0]

def gzipEnv : Env :=
  { sampleEnv [] [(31, gzipped, "abc".toUTF8.toList)] with
    deflate := fun _ => gzipped
    deflate_ne_nil := by simp [gzipped] }

/-- Three bytes to be sent with a Content-Encoding. -/
def encodedDescription (contentEncoding : String) : FileDescription where
  entry := {
    contentLocation := "f"
    contentLength := 3
    contentMd5 := base64Encode (Md5.digest "abc".toUTF8.toList)
    fecOti := { transferLength := 3, encodingSymbolLength := 1436, maxSourceBlockLength := 64 }
    contentEncoding := contentEncoding }
  data := "abc".toUTF8.toList
  toi_lt := Nat.two_pow_pos 16
  noCode := rfl
  digest := Or.inr ⟨_, Md5.length_digest _, rfl⟩

theorem encodedDescription_compressed {contentEncoding : String}
    (known : contentEncoding = "gzip" ∨ contentEncoding = "deflate") :
    (encodedDescription contentEncoding).Compressed gzipEnv where
  encoding := known
  contentLength := by
    change 3 = toU32 ("abc".toUTF8.toList).length
    decide +kernel
  contentMd5 := by
    have nonempty : (encodedDescription contentEncoding).data ≠ [] := by
      change "abc".toUTF8.toList ≠ []
      decide +kernel
    rw [if_neg nonempty]
    rfl
  symbolLength := by
    change 0 < 1436
    decide
  blockLength := by
    change 0 < 64
    decide
  memory := rfl

theorem gzipEnv_decompresses : gzipEnv.Decompresses "abc".toUTF8.toList where
  gzip := by decide +kernel
  zlib := by decide +kernel

theorem restored_iff_abc : (encodedDescription "gzip").Restored gzipEnv :=
  (FileDescription.restored_iff (encodedDescription_compressed (Or.inl rfl)) gzipEnv_decompresses).mpr
    ⟨rfl, by decide +kernel, by decide +kernel⟩

/-- A zlib stream is expected where a gzip stream was sent. -/
theorem not_restored : ¬ ∀ (env : Env) (fd : FileDescription), fd.Compressed env → env.Decompresses fd.data →
    fd.Restored env := fun all => by
  have restored := all gzipEnv (encodedDescription "deflate") (encodedDescription_compressed (Or.inr rfl))
    gzipEnv_decompresses
  obtain ⟨gzip, _, _⟩ := FileDescription.Restored.one_chunk (encodedDescription_compressed (Or.inr rfl))
    gzipEnv_decompresses restored
  exact absurd gzip (by decide)

end Libflute

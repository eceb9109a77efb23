import Libflute.Layout
import Libflute.Reassembly
import Libflute.SampleEnv

/-! One file from the sender to a receiver. -/

namespace Libflute

/-- The parameters the transmitter's constructor gives its objects. -/
def sessionFecOti (maxPayload : Nat) : FecOti where
  encodingSymbolLength := maxPayload
  maxSourceBlockLength := 64

/-- What the application passes to one of the two overloads of `send`. -/
inductive Origin
  | data (contentLocation contentType : String) (expires : Nat) (copyData : Bool)
  | description (fd : FileDescription)

/-- The file `send` makes of it. -/
def Origin.file (env : Env) (toi : Nat) (fecOti : FecOti) (content : List UInt8) : Origin → Outcome File
  | .data contentLocation contentType expires copyData =>
    File.ofData env toi fecOti contentLocation contentType expires content copyData
  | .description fd => File.ofDescription env fd

/-- A description of unencoded content with the session's parameters merged in. -/
def Origin.Describes (env : Env) (toi : Nat) (fecOti : FecOti) (content : List UInt8) : Origin → Prop
  | .data .. => True
  | .description fd => fd.data = content ∧ fd.entry.toi = toi ∧ fd.entry.contentEncoding = "" ∧
    (fd.entry.contentMd5 = "" ∨ fd.entry.contentMd5 = base64Encode (env.md5 content)) ∧
    fd.entry.fecOti.encodingSymbolLength = fecOti.encodingSymbolLength ∧
    fd.entry.fecOti.maxSourceBlockLength = fecOti.maxSourceBlockLength

namespace File
variable {f : File} {env : Env} {fecOti : FecOti}

theorem withBlocks_layout (tile : f.fecOti.Tileable) (nonempty : 0 < f.fecOti.transferLength) :
    f.withBlocks = .ok { f with sourceBlocks := f.fecOti.blocksAt fun _ _ => false } := by
  rw [withBlocks, createBlocks_layout tile.narrow nonempty]
  rfl

theorem find?_blocksAt (done : Nat → Nat → Bool) (n : Nat) : (fecOti.blocksAt done).find? n =
    if n < (calculatePartitioning fecOti).nofSourceBlocks then some (fecOti.blockAt done n) else none :=
  SortedMap.find?_ofRange _ _ _

theorem find?_blockAt (done : Nat → Nat → Bool) (n i : Nat) : (fecOti.blockAt done n).symbols.find? i =
    if i < (calculatePartitioning fecOti).blockLength n then
      some { fecOti.slot ((calculatePartitioning fecOti).blockStart n + i) with complete := done n i }
    else none :=
  SortedMap.find?_ofRange _ _ _

/-- Every byte of the object is in a slot. -/
def Covered (f : File) : Prop :=
  ∀ p < f.fecOti.transferLength, ∃ n i slot offset, f.symbol? n i = some slot ∧ slot.data = some offset ∧
    offset ≤ p ∧ p < offset + slot.length

end File

theorem FecOti.Tileable.covered {f : File} (tile : f.fecOti.Tileable)
    (blocks : f.sourceBlocks = f.fecOti.blocksAt fun _ _ => false) : f.Covered := by
  intro p inside
  set E := f.fecOti.encodingSymbolLength
  have positive : 0 < E := tile.symbol_pos
  have split := Nat.div_add_mod p E
  have remainder := Nat.mod_lt p positive
  rw [Nat.mul_comm] at split
  have within : p / E < (calculatePartitioning f.fecOti).nofSourceSymbols := by
    rw [tile.narrow.nofSourceSymbols, lt_ceilDiv_iff positive]
    omega
  obtain ⟨n, i, block, index, same⟩ := (tile.narrow.balanced (by omega)).exists_index within
  have found : f.symbol? n i = some (f.fecOti.slot (p / E)) := by
    refine File.symbol?_eq_some.mpr ⟨f.fecOti.blockAt (fun _ _ => false) n, ?_, ?_⟩
    · rw [blocks, File.find?_blocksAt, if_pos block]
    · rw [File.find?_blockAt, if_pos index, same]
      rfl
  refine ⟨n, i, f.fecOti.slot (p / E), p / E * E, found, rfl, ?_, ?_⟩
  · omega
  · change p < p / E * E + min (f.fecOti.transferLength - p / E * E) E
    omega

namespace File
variable {f : File} {env : Env} {fecOti : FecOti}

/-- A new file over a tileable object is tiled by its symbols. -/
theorem New.tiled (new : f.New) (tile : f.fecOti.Tileable) (small : f.fecOti.encodingSymbolLength < 2 ^ 31)
    (blocks : f.sourceBlocks = f.fecOti.blocksAt fun _ _ => false) : f.Tiled where
  sound := new.sound
  small := small
  blocks := by
    intro n shape found
    rw [find?_shape, blocks, find?_blocksAt] at found
    rw [size_shape, blocks, FecOti.blocksAt, SortedMap.size_ofRange]
    split_ifs at found with before
    · obtain rfl := Option.some.inj found
      refine ⟨before.le, fun i slot here => ?_⟩
      rw [size_blockShape, FecOti.blockAt, SortedMap.size_ofRange]
      rw [find?_blockShape, find?_blockAt] at here
      split_ifs at here with within
      · exact within.le
      · cases here
    · cases found
  cover := by
    intro p inside
    rw [new.sound.whole] at inside
    obtain ⟨n, i, slot, offset, found, data, before, behind⟩ := tile.covered blocks p inside
    refine ⟨(n, i), offset, slot.length, ?_, before, behind⟩
    rw [slot?_of_symbol? (show f.symbol? (n, i).1 (n, i).2 = _ from found), data]

/-- The file a constructor makes of content that fits. -/
structure Carries (env : Env) (toi : Nat) (content : List UInt8) (f : File) : Prop where
  new : f.New
  digest : f.DigestHolds env
  toi : f.entry.toi = toi
  buffer : f.buffer = content
  length : f.fecOti.transferLength = content.length
  blocks : f.sourceBlocks = f.fecOti.blocksAt fun _ _ => false

end File

theorem Origin.file_carries {env : Env} {origin : Origin} {toi : Nat} {fecOti : FecOti}
    {content : List UInt8} (describes : origin.Describes env toi fecOti content)
    (scheme : fecOti.encodingId = .compactNoCode)
    (tile : ({ fecOti with transferLength := content.length } : FecOti).Tileable)
    (nonempty : content ≠ []) (memory : env.malloc content.length = true) :
    ∃ f, origin.file env toi fecOti content = .ok f ∧ f.Carries env toi content ∧
      f.fecOti.encodingSymbolLength = fecOti.encodingSymbolLength ∧
      f.fecOti.maxSourceBlockLength = fecOti.maxSourceBlockLength := by
  have positive : 0 < content.length := List.length_pos_of_ne_nil nonempty
  cases origin with
  | data contentLocation contentType expires copyData =>
    have made : ∃ f, File.ofData env toi fecOti contentLocation contentType expires content copyData = .ok f ∧
        f.sourceBlocks = f.fecOti.blocksAt fun _ _ => false := by
      rw [File.ofData, if_neg (by simp [memory]), if_pos scheme]
      exact ⟨_, File.withBlocks_layout tile positive, rfl⟩
    obtain ⟨f, run, blocks⟩ := made
    obtain ⟨new, digest, buffer, _, _, entry⟩ := File.ofData_new run
    exact ⟨f, run, ⟨new, digest, by rw [entry], buffer, by rw [File.fecOti, entry], blocks⟩,
      by rw [File.fecOti, entry], by rw [File.fecOti, entry]⟩
  | description fd =>
    obtain ⟨rfl, rfl, plain, md5, symbolLength, blockLength⟩ := describes
    have sameTile : ({ fd.entry.fecOti with transferLength := fd.data.length } : FecOti).Tileable :=
      ⟨by simpa only [symbolLength] using tile.symbol_pos, by simpa only [blockLength] using tile.block_pos,
        by simpa only [blockLength] using tile.block_le, by simpa only [symbolLength] using tile.symbols_lt,
        by simpa only [symbolLength, blockLength] using tile.blocks_le⟩
    have made : ∃ f, File.ofDescription env fd = .ok f ∧
        f.sourceBlocks = f.fecOti.blocksAt fun _ _ => false := by
      rw [File.ofDescription, if_pos memory, if_pos fd.noCode, File.encode, if_pos (Or.inr plain), ok_bind]
      exact ⟨_, File.withBlocks_layout sameTile positive, rfl⟩
    obtain ⟨f, run, blocks⟩ := made
    obtain ⟨new, _, _, _, _, _, unencoded, _⟩ := File.ofDescription_new run
    obtain ⟨buffer, entry⟩ := unencoded plain
    refine ⟨f, run, ⟨new, fun _ stated => ?_, by rw [entry], buffer, by rw [File.fecOti, entry], blocks⟩,
      by rw [File.fecOti, entry]; exact symbolLength, by rw [File.fecOti, entry]; exact blockLength⟩
    rw [entry] at stated ⊢
    rw [buffer]
    exact md5.resolve_left stated

theorem sessionFecOti_tileable {maxPayload length : Nat} (positive : 0 < maxPayload)
    (blocks : length ⌈/⌉ maxPayload ⌈/⌉ 64 ≤ 65536) :
    ({ sessionFecOti maxPayload with transferLength := length } : FecOti).Tileable := by
  refine ⟨positive, show 0 < 64 by decide, show 64 ≤ 2 ^ 16 by decide, ?_, blocks⟩
  have symbols : length ⌈/⌉ maxPayload ≤ 64 * 65536 := by
    have fits := le_mul_ceilDiv (a := length ⌈/⌉ maxPayload) (b := 64) (by decide)
    omega
  change length ⌈/⌉ maxPayload < 2 ^ 32
  omega

/-- A receiver that gets packets of one file, in any order and any number of
times, has the file when it has got each packet. -/
theorem transfer_complete_iff (env : Env) (origin : Origin) (content : List UInt8) (tsi toi maxPayload : Nat)
    (nonempty : content ≠ []) (minPayload : 5 ≤ maxPayload) (mtu : maxPayload ≤ 65471)
    (blocks : content.length ⌈/⌉ maxPayload ⌈/⌉ 64 ≤ 65536)
    (describes : origin.Describes env toi (sessionFecOti maxPayload) content)
    (memory : env.malloc content.length = true) :
    ∃ f fuel packets r₀, origin.file env toi (sessionFecOti maxPayload) content = .ok f ∧
      drain env tsi maxPayload fuel f = .ok packets ∧ File.ofEntry env f.entry = .ok r₀ ∧
      ∀ arriving : List (List UInt8 × List UInt8), (∀ arrival ∈ arriving, arrival.1 ∈ packets) →
        ∃ r, receivePackets env r₀ arriving = (r, .ok ()) ∧
          (r.complete = true ↔ ∀ packet ∈ packets, packet ∈ arriving.map Prod.fst) ∧
          (r.complete = true → r.buffer = content) := by
  obtain ⟨f, made, carries, symbolLength, blockLength⟩ := Origin.file_carries describes rfl
    (sessionFecOti_tileable (by omega) blocks) nonempty memory
  change f.fecOti.encodingSymbolLength = maxPayload at symbolLength
  change f.fecOti.maxSourceBlockLength = 64 at blockLength
  have positive : 0 < f.fecOti.transferLength := by
    rw [carries.length]
    exact List.length_pos_of_ne_nil nonempty
  have tile : f.fecOti.Tileable := by
    have tile := sessionFecOti_tileable (show 0 < maxPayload by omega) blocks
    refine ⟨by omega, by omega, by omega, ?_, ?_⟩
    · rw [symbolLength, carries.length]
      exact tile.symbols_lt
    · rw [symbolLength, blockLength, carries.length]
      exact tile.blocks_le
  have tiled := carries.new.tiled tile (by omega) carries.blocks
  have one : ceilInt (subSize maxPayload 4) f.fecOti.encodingSymbolLength = .ok 1 := by
    rw [symbolLength, subSize_of_le (by omega) (by omega), ceilInt_eq_ok,
      SinglePrecision.ceilDivide_of_le_divisor (by omega) (by omega)]
    exact ⟨by omega, by decide, rfl⟩
  obtain ⟨keys, drained, all⟩ := File.Idle.drain ⟨carries.new.sound, carries.digest, carries.new.idle⟩ one
    (fun key data length slot => symbolLength ▸ (tiled.sound.slot_lengths slot).2) tsi
  have inKeys : ∀ key, key ∈ keys ↔ f.Holds key := fun key => by
    rw [all]
    exact and_iff_left (carries.new.undone key)
  have receiving : ∃ r₀, File.ofEntry env f.entry = .ok r₀ ∧ File.Holding f [] r₀ := by
    have room : env.malloc f.entry.fecOti.transferLength = true := by
      rw [show f.entry.fecOti.transferLength = content.length from carries.length]
      exact memory
    rw [File.ofEntry, if_pos room]
    refine ⟨_, File.withBlocks_layout tile positive, ?_⟩
    obtain ⟨new, _⟩ := File.withBlocks_new (File.withBlocks_layout tile positive)
      (f := { entry := f.entry, buffer := env.fresh f.entry.fecOti.transferLength })
      carries.new.sound.scheme rfl (env.fresh_length _) carries.new.sound.digest rfl
    refine ⟨new.sound, rfl, ?_, rfl, new.idle, fun key => ?_, by simp⟩
    · simp only [File.shape, carries.blocks]
      rfl
    · simp [new.undone key]
  obtain ⟨r₀, opened, holding⟩ := receiving
  refine ⟨f, _, _, r₀, made, drained, opened, fun arriving sent => ?_⟩
  have some : ∃ key, f.Holds key := carries.new.nonempty positive
  obtain ⟨r, received, run, later, known⟩ := holding.receivePackets tiled carries.digest tsi
    fun arrival member => by
      obtain ⟨key, inList, same⟩ := List.mem_map.mp (sent arrival member)
      exact ⟨key, (inKeys key).mp inList, same.symm⟩
  refine ⟨r, run, ?_, fun complete => ?_⟩
  · rw [later.complete_iff some, List.forall_mem_map]
    constructor
    · intro every key member
      have held := (inKeys key).mp member
      exact ((known key held).mp (every key held)).resolve_left (by simp)
    · intro every key held
      exact (known key held).mpr (Or.inr (every key ((inKeys key).mpr held)))
  · rw [later.buffer_eq tiled ((later.complete_iff some).mp complete), carries.buffer]

/-- Content for three blocks of 43 symbols of five bytes, but for the last symbol, which has three. -/
def blocksContent : List UInt8 := (List.range 643).map UInt8.ofNat

theorem transfer_complete_iff_blocks :
    ∃ f fuel packets r₀,
      (Origin.data "abc.txt" "text/plain" 0 true).file (sampleEnv [] []) 1 (sessionFecOti 5) blocksContent = .ok f ∧
      drain (sampleEnv [] []) 16 5 fuel f = .ok packets ∧ File.ofEntry (sampleEnv [] []) f.entry = .ok r₀ ∧
      ∀ arriving : List (List UInt8 × List UInt8), (∀ arrival ∈ arriving, arrival.1 ∈ packets) →
        ∃ r, receivePackets (sampleEnv [] []) r₀ arriving = (r, .ok ()) ∧
          (r.complete = true ↔ ∀ packet ∈ packets, packet ∈ arriving.map Prod.fst) ∧
          (r.complete = true → r.buffer = blocksContent) :=
  transfer_complete_iff _ _ _ _ _ _ (by decide +kernel) (by decide) (by decide) (by decide +kernel) trivial rfl

end Libflute

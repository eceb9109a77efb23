import Libflute.FileSending

namespace Libflute
namespace File

/-- A file whose symbol `i` of block `n` was sent, before its digest is checked. -/
def settled (f : File) (n i : Nat) (block : SourceBlock) : File :=
  let symbols := block.symbols.modify i fun s => { s with queued := false, complete := true }
  let f := f.setBlock n { block with symbols := symbols }.checkCompletion
  { f with complete := f.sourceBlocks.all SourceBlock.complete }

/-- Where a digest of the content is checked, it is the right one. -/
def DigestHolds (env : Env) (f : File) : Prop :=
  f.entry.contentEncoding = "" → f.entry.contentMd5 ≠ "" → f.entry.contentMd5 = base64Encode (env.md5 f.buffer)

/-- What marking symbols as complete does to a sound file: they are no longer
queued, and no others become complete; they stay complete unless the digest of
the whole content is wrong. -/
structure Marked (env : Env) (f f' : File) (keys : List (Nat × Nat)) : Prop where
  sound : f'.Sound
  entry : f'.entry = f.entry
  buffer : f'.buffer = f.buffer
  shape : f'.shape = f.shape
  fdtInstanceId : f'.fdtInstanceId = f.fdtInstanceId
  holds : ∀ key, f'.Holds key ↔ f.Holds key
  queued : ∀ key, f'.Queued key ↔ f.Queued key ∧ key ∉ keys
  done : ∀ key, f'.Done key → f.Done key ∨ key ∈ keys
  advance : f.DigestHolds env → ∀ key, f.Done key ∨ key ∈ keys → f'.Done key

variable {env : Env}

theorem Sound.marked_nil {f : File} (sound : f.Sound) : Marked env f f [] where
  sound := sound
  entry := rfl
  buffer := rfl
  shape := rfl
  fdtInstanceId := rfl
  holds := fun _ => Iff.rfl
  queued := by simp
  done := fun _ done => Or.inl done
  advance := by simp

theorem Marked.digestHolds {f g : File} {keys : List (Nat × Nat)} (marked : Marked env f g keys) :
    g.DigestHolds env ↔ f.DigestHolds env := by
  rw [DigestHolds, DigestHolds, marked.entry, marked.buffer]

theorem Marked.append {f g h : File} {keys more : List (Nat × Nat)} (one : Marked env f g keys)
    (rest : Marked env g h more) : Marked env f h (keys ++ more) where
  sound := rest.sound
  entry := rest.entry.trans one.entry
  buffer := rest.buffer.trans one.buffer
  shape := rest.shape.trans one.shape
  fdtInstanceId := rest.fdtInstanceId.trans one.fdtInstanceId
  holds := fun k => (rest.holds k).trans (one.holds k)
  queued := fun k => by
    rw [rest.queued, one.queued, List.mem_append, not_or, and_assoc]
  done := fun k done => by
    rw [List.mem_append]
    rcases rest.done k done with before | later
    · rcases one.done k before with old | here
      · exact Or.inl old
      · exact Or.inr (Or.inl here)
    · exact Or.inr (Or.inr later)
  advance := fun digest k known => by
    refine rest.advance (one.digestHolds.mpr digest) k ?_
    rcases known with old | member
    · exact Or.inl (one.advance digest k (Or.inl old))
    · rcases List.mem_append.mp member with here | later
      · exact Or.inl (one.advance digest k (Or.inr here))
      · exact Or.inr later

variable {f : File} {n i : Nat} {block : SourceBlock}

theorem find?_settled (m : Nat) : (f.settled n i block).sourceBlocks.find? m =
    if m = n then some { block with symbols := block.symbols.modify i fun s =>
      { s with queued := false, complete := true } }.checkCompletion
    else f.sourceBlocks.find? m :=
  SortedMap.find?_insertOrAssign _ _ _ _

theorem symbol?_settled (inFile : f.sourceBlocks.find? n = some block) (m j : Nat) :
    (f.settled n i block).symbol? m j =
      if (m, j) = (n, i) then (f.symbol? n i).map fun s => { s with queued := false, complete := true }
      else f.symbol? m j := by
  simp only [symbol?, find?_settled, inFile, Option.bind_some]
  by_cases sameBlock : m = n
  · subst sameBlock
    simp only [if_true, Option.bind_some, SourceBlock.checkCompletion, SortedMap.find?_modify, inFile,
      Prod.mk.injEq, true_and]
  · simp [sameBlock]

theorem shape_settled (inFile : f.sourceBlocks.find? n = some block) :
    (f.settled n i block).shape = f.shape := by
  refine SortedMap.ext_find? fun m => ?_
  rw [find?_shape, find?_shape, find?_settled]
  split
  · next same =>
    subst same
    rw [inFile, Option.map_some, Option.map_some]
    congr 1
    refine SortedMap.ext_find? fun j => ?_
    rw [find?_blockShape, find?_blockShape]
    simp only [SourceBlock.checkCompletion, SortedMap.find?_modify]
    split
    · next here => subst here; simp [Function.comp_def]
    · rfl
  · rfl

/-- When each block knows whether it is complete, so does the file. -/
theorem all_blocks_iff (blockComplete : ∀ n block, f.sourceBlocks.find? n = some block →
      block.complete = block.symbols.all Symbol.complete) :
    f.sourceBlocks.all SourceBlock.complete = true ↔
      ∀ n i symbol, f.symbol? n i = some symbol → symbol.complete = true := by
  rw [SortedMap.all_eq_true]
  constructor
  · intro every n i symbol found
    obtain ⟨block, inFile, inBlock⟩ := symbol?_eq_some.mp found
    have complete := every n block inFile
    rw [blockComplete n block inFile] at complete
    exact SortedMap.all_eq_true.mp complete i symbol inBlock
  · intro every n block inFile
    rw [blockComplete n block inFile, SortedMap.all_eq_true]
    exact fun i symbol inBlock => every n i symbol (symbol?_eq_some.mpr ⟨block, inFile, inBlock⟩)

theorem Sound.settled (sound : f.Sound) (inFile : f.sourceBlocks.find? n = some block) :
    (f.settled n i block).Sound := by
  have blockComplete : ∀ m other, (f.settled n i block).sourceBlocks.find? m = some other →
      other.complete = other.symbols.all Symbol.complete := by
    intro m other found
    rw [find?_settled] at found
    split at found
    · obtain rfl := Option.some.inj found
      rfl
    · exact sound.blockComplete m other found
  refine ⟨sound.scheme, sound.plain, sound.whole, sound.digest, ?_, ?_, blockComplete, ?_⟩
  · rw [shape_settled inFile]
    exact sound.shape
  · intro m j symbol found complete
    rw [symbol?_settled inFile] at found
    split at found
    · obtain ⟨old, _, rfl⟩ := Option.map_eq_some_iff.mp found
      rfl
    · exact sound.exclusive m j symbol found complete
  · have some : ∃ m other, (f.settled n i block).sourceBlocks.find? m = some other :=
      ⟨n, _, by rw [find?_settled, if_pos rfl]⟩
    refine (all_blocks_iff blockComplete).trans ?_
    simp only [some, true_and]

theorem done_settled (inFile : f.sourceBlocks.find? n = some block) (held : f.Holds (n, i)) (key : Nat × Nat) :
    (f.settled n i block).Done key ↔ f.Done key ∨ key = (n, i) := by
  simp only [Done, symbol?_settled inFile]
  split
  · next here =>
    obtain ⟨symbol, found⟩ := held
    have same : key = (n, i) := here
    simp [show f.symbol? n i = some symbol from found, same]
  · next other =>
    have different : key ≠ (n, i) := other
    simp [different]

theorem Sound.marked_settled (sound : f.Sound) (inFile : f.sourceBlocks.find? n = some block)
    (held : f.Holds (n, i)) :
    Marked env f (f.settled n i block) [(n, i)] where
  sound := sound.settled inFile
  entry := rfl
  buffer := rfl
  shape := shape_settled inFile
  fdtInstanceId := rfl
  holds := fun key => by
    simp only [Holds, symbol?_settled inFile]
    split
    · next here => obtain ⟨rfl, rfl⟩ := Prod.mk.inj here; simp
    · rfl
  queued := fun key => by
    simp only [Queued, symbol?_settled inFile, List.mem_singleton]
    split
    · next here =>
      have same : key = (n, i) := here
      simp [same, Option.map_eq_some_iff]
    · next other =>
      have different : key ≠ (n, i) := other
      simp [different]
  done := fun key done => by simpa using (done_settled inFile held key).mp done
  advance := fun _ key known => (done_settled inFile held key).mpr (by simpa using known)

theorem symbol?_reset (m j : Nat) :
    f.reset.symbol? m j = (f.symbol? m j).map fun s => { s with complete := false } := by
  simp only [symbol?, reset, SortedMap.find?_map]
  cases f.sourceBlocks.find? m with
  | none => rfl
  | some block => simp [SortedMap.find?_map]

theorem shape_reset : f.reset.shape = f.shape := by
  simp only [shape, reset, SortedMap.map_map]
  congr 1
  funext n block
  simp only [SourceBlock.shape, SortedMap.map_map]

theorem Sound.reset (sound : f.Sound) (some : ∃ n block, f.sourceBlocks.find? n = some block) :
    f.reset.Sound := by
  have incomplete : ∀ n i symbol, f.reset.symbol? n i = Option.some symbol → symbol.complete = false := by
    intro n i symbol found
    rw [symbol?_reset, Option.map_eq_some_iff] at found
    obtain ⟨old, _, rfl⟩ := found
    rfl
  have shape : ShapeWithin f.reset.shape f.fecOti.encodingSymbolLength f.buffer.length := by
    rw [shape_reset]
    exact sound.shape
  refine ⟨sound.scheme, sound.plain, sound.whole, sound.digest, shape, ?_, ?_, ?_⟩
  · intro n i symbol found complete
    rw [incomplete n i symbol found] at complete
    exact absurd complete (by simp)
  · intro n block found
    simp only [File.reset, SortedMap.find?_map, Option.map_eq_some_iff] at found
    obtain ⟨old, inFile, rfl⟩ := found
    obtain ⟨i, symbol, inBlock⟩ := sound.block_nonempty inFile
    refine (Bool.eq_false_iff.mpr fun every => ?_).symm
    have complete := SortedMap.all_eq_true.mp every i { symbol with complete := false }
      (by rw [SortedMap.find?_map, inBlock, Option.map_some])
    exact absurd complete (by simp)
  · refine iff_of_false (by simp [File.reset]) ?_
    rintro ⟨_, every⟩
    obtain ⟨n, block, inFile⟩ := some
    obtain ⟨i, symbol, inBlock⟩ := sound.block_nonempty inFile
    have found : f.reset.symbol? n i = Option.some { symbol with complete := false } := by
      rw [symbol?_reset, symbol?_eq_some.mpr ⟨block, inFile, inBlock⟩, Option.map_some]
    exact absurd (every n i _ found) (by simp)

/-- Comparing the digest of a sound file cannot fail, and a right digest is found right. -/
theorem Sound.md5Matches_ok (sound : f.Sound) (env : Env) (stated : f.entry.contentMd5 ≠ "") :
    ∃ same, md5Matches env f = .ok same ∧
      (f.entry.contentMd5 = base64Encode (env.md5 f.buffer) → same = true) := by
  obtain ⟨md5, length, encoded⟩ := sound.digest.resolve_left stated
  have all : f.length = f.buffer.length := by
    rw [File.length, if_neg (by simp [sound.plain]), sound.whole]
  have content : readBytes f.buffer f.length = .ok f.buffer :=
    readBytes_eq_ok.mpr ⟨all.le, by rw [all, List.take_length]⟩
  have digest : readBytes (md5 ++ [0]) 16 = .ok md5 :=
    readBytes_eq_ok.mpr ⟨by simp [length], by rw [← length, List.take_left]⟩
  refine ⟨env.md5 f.buffer == md5, ?_, fun right => ?_⟩
  · rw [md5Matches, content, ok_bind, encoded, base64Decode_encode, ok_bind, digest, ok_bind]
    rfl
  · have same : base64Decode (base64Encode md5) = base64Decode (base64Encode (env.md5 f.buffer)) := by
      rw [← encoded, right]
    rw [base64Decode_encode, base64Decode_encode] at same
    simpa using (Except.ok.inj same).symm

/-- The digest check of a sound file returns; a right digest changes nothing. -/
theorem Sound.checkDigest (sound : f.Sound) (env : Env) :
    ∃ f', f.checkDigest env = (f', .ok ()) ∧ Marked env f f' [] ∧ (f.DigestHolds env → f' = f) := by
  unfold File.checkDigest
  split_ifs with check
  · obtain ⟨same, run, right⟩ := sound.md5Matches_ok env check.2.1
    rw [run]
    cases same with
    | true => exact ⟨f, rfl, sound.marked_nil, fun _ => rfl⟩
    | false =>
      have wrong : ¬ f.DigestHolds env := fun holds => absurd (right (holds check.2.2 check.2.1)) (by simp)
      refine ⟨f.reset, rfl, ?_, fun holds => absurd holds wrong⟩
      exact {
        sound := sound.reset (sound.complete_iff.mp check.1).1
        entry := rfl
        buffer := rfl
        shape := shape_reset
        fdtInstanceId := rfl
        holds := fun key => by simp [Holds, symbol?_reset]
        queued := fun key => by simp [Queued, symbol?_reset, Option.map_eq_some_iff]
        done := fun key => by simp [Done, symbol?_reset, Option.map_eq_some_iff]
        advance := fun holds => absurd holds wrong }
  · exact ⟨f, rfl, sound.marked_nil, fun _ => rfl⟩

/-- `mark_completed` of one symbol of a sound file returns. -/
theorem Sound.markSymbol (sound : f.Sound) (env : Env) {symbol : EncodingSymbol}
    (held : f.Holds symbol.key) :
    ∃ f', f.markSymbol env symbol true = (f', .ok ()) ∧ Marked env f f' [symbol.key] := by
  obtain ⟨inner, found⟩ := id held
  obtain ⟨block, inFile, _⟩ := symbol?_eq_some.mp found
  obtain ⟨small, smallId, _⟩ := sound.symbol_spec found
  set g := f.settled symbol.sourceBlockNumber symbol.id block
  have one : Marked env f g [symbol.key] := sound.marked_settled inFile held
  have unfolded : f.markSymbol env symbol true = g.checkDigest env := by
    simp only [File.markSymbol, Nat.mod_eq_of_lt (show symbol.sourceBlockNumber < 2 ^ 16 from small),
      Nat.mod_eq_of_lt (show symbol.id < 2 ^ 16 from smallId)]
    rw [show f.sourceBlocks.find? symbol.sourceBlockNumber = some block from inFile]
    rfl
  obtain ⟨f', run, checked, _⟩ := one.sound.checkDigest env
  exact ⟨f', unfolded.trans run, one.append checked⟩

/-- `mark_completed` of symbols of a sound file returns. -/
theorem Sound.markCompleted (sound : f.Sound) (env : Env) (symbols : List EncodingSymbol)
    (held : ∀ symbol ∈ symbols, f.Holds symbol.key) :
    ∃ f', f.markCompleted env symbols true = (f', .ok ()) ∧
      Marked env f f' (symbols.map EncodingSymbol.key) := by
  induction symbols generalizing f with
  | nil => exact ⟨f, rfl, sound.marked_nil⟩
  | cons symbol rest ih =>
    obtain ⟨g, step, one⟩ := sound.markSymbol env (held symbol (by simp))
    obtain ⟨f', run, later⟩ := ih one.sound fun other member =>
      (one.holds _).mpr (held other (List.mem_cons_of_mem _ member))
    refine ⟨f', ?_, one.append later⟩
    rw [File.markCompleted, step]
    exact run

end File
end Libflute

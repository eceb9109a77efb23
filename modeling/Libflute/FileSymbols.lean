import Libflute.File

/-! What a file still has to send, and what taking and marking symbols does to it. -/

namespace Libflute

def Symbol.queueIf (symbol : Symbol) (taken : Bool) : Symbol := { symbol with queued := symbol.queued || taken }

@[simp] theorem Symbol.queueIf_false (symbol : Symbol) : symbol.queueIf false = symbol := by
  simp [Symbol.queueIf]

def Symbol.unsent (symbol : Symbol) : Bool := !symbol.complete && !symbol.queued

/-- The symbols a block still has to send, in the order they are sent. -/
def SourceBlock.unsent (block : SourceBlock) : List (Nat × Symbol) :=
  if block.complete then [] else block.symbols.entries.filter fun e => e.2.unsent

/-- A block with some of its symbols queued. -/
def SourceBlock.queue (block : SourceBlock) (taken : Nat → Bool) : SourceBlock :=
  { block with symbols := block.symbols.map fun i symbol => symbol.queueIf (taken i) }

@[simp] theorem SourceBlock.queue_none (block : SourceBlock) : (block.queue fun _ => false) = block := by
  have same : (block.symbols.map fun _ symbol => symbol.queueIf false) = block.symbols := by
    ext1
    simp [SortedMap.map]
  rw [SourceBlock.queue, same]

/-- A symbol of a file with the number of its block and its ID. -/
structure Placed where
  block : Nat
  id : Nat
  symbol : Symbol
  deriving DecidableEq, Repr

def Placed.key (placed : Placed) : Nat × Nat := (placed.block, placed.id)

namespace File

def symbol? (f : File) (n i : Nat) : Option Symbol :=
  (f.sourceBlocks.find? n).bind fun block => block.symbols.find? i

def unsentIn (n : Nat) (block : SourceBlock) : List Placed := block.unsent.map fun e => ⟨n, e.1, e.2⟩

/-- The symbols a file still has to send, in the order they are sent. -/
def unsent (f : File) : List Placed := f.sourceBlocks.entries.flatMap fun e => unsentIn e.1 e.2

/-- The file with the named symbols queued. -/
def queue (f : File) (keys : List (Nat × Nat)) : File :=
  { f with sourceBlocks := f.sourceBlocks.map fun n block => block.queue fun i => decide ((n, i) ∈ keys) }

def encoded (f : File) (placed : Placed) : EncodingSymbol :=
  f.encodingSymbol placed.block placed.id placed.symbol

theorem takeSymbols_eq (nofSymbols : Nat) (f : File) (n : Nat) {symbols : List (Nat × Symbol)}
    (distinct : (symbols.map Prod.fst).Nodup) (taken : List EncodingSymbol) :
    SortedMap.mapAccumEntries (takeSymbol nofSymbols f n) symbols taken =
      (symbols.map fun e => (e.1, e.2.queueIf (decide (e.1 ∈
          ((symbols.filter fun e => e.2.unsent).take (nofSymbols - taken.length)).map Prod.fst))),
        taken ++ ((symbols.filter fun e => e.2.unsent).take (nofSymbols - taken.length)).map fun e =>
          f.encodingSymbol n e.1 e.2) := by
  induction symbols generalizing taken with
  | nil => simp [SortedMap.mapAccumEntries]
  | cons head rest ih =>
    obtain ⟨i, symbol⟩ := head
    simp only [List.map_cons, List.nodup_cons] at distinct
    have absent : ∀ k, i ∉ ((rest.filter fun e => e.2.unsent).take k).map Prod.fst := fun k member =>
      distinct.1 (((List.take_sublist _ _).trans List.filter_sublist).map Prod.fst |>.subset member)
    have others : ∀ e ∈ rest, e.1 ≠ i := fun e member same =>
      distinct.1 (same ▸ List.mem_map_of_mem member)
    simp only [SortedMap.mapAccumEntries, ih distinct.2]
    by_cases fresh : symbol.unsent = true
    · have keep : ((i, symbol) :: rest).filter (fun e => e.2.unsent) =
          (i, symbol) :: rest.filter fun e => e.2.unsent := List.filter_cons_of_pos fresh
      rw [keep]
      have flags : symbol.complete = false ∧ symbol.queued = false := by
        simpa [Symbol.unsent] using fresh
      by_cases room : taken.length < nofSymbols
      · have budget : nofSymbols - taken.length = nofSymbols - (taken.length + 1) + 1 := by omega
        simp only [takeSymbol, if_pos (show taken.length < nofSymbols ∧ _ from ⟨room, flags⟩), budget,
          List.take_succ_cons, List.map_cons, List.length_append, List.length_singleton, List.append_assoc,
          List.singleton_append, Prod.mk.injEq, List.cons.injEq, and_true]
        refine ⟨⟨trivial, by simp [Symbol.queueIf]⟩, ?_⟩
        refine List.map_congr_left fun e member => ?_
        simp [others e member]
      · have spent : nofSymbols - taken.length = 0 := by omega
        simp [takeSymbol, room, spent]
    · have drop : ((i, symbol) :: rest).filter (fun e => e.2.unsent) =
          rest.filter fun e => e.2.unsent := List.filter_cons_of_neg fresh
      rw [drop]
      have skip : ¬ (taken.length < nofSymbols ∧ symbol.complete = false ∧ symbol.queued = false) := by
        rintro ⟨_, incomplete, unqueued⟩
        exact fresh (by simp [Symbol.unsent, incomplete, unqueued])
      simp only [takeSymbol, if_neg skip, List.map_cons, absent, decide_false, Symbol.queueIf_false]

/-- One block hands out its unsent symbols as far as the count allows. -/
theorem takeBlock_eq (nofSymbols : Nat) (f : File) (n : Nat) (block : SourceBlock)
    (taken : List EncodingSymbol) :
    takeBlock nofSymbols f n block taken =
      (block.queue fun i => decide (i ∈ (block.unsent.take (nofSymbols - taken.length)).map Prod.fst),
        taken ++ ((unsentIn n block).take (nofSymbols - taken.length)).map f.encoded) := by
  unfold takeBlock
  split_ifs with open'
  · have whole : block.unsent = block.symbols.entries.filter fun e => e.2.unsent := by
      simp [SourceBlock.unsent, open'.2]
    have run := takeSymbols_eq nofSymbols f n block.symbols.nodup_keys taken
    simp only [SortedMap.mapAccum, unsentIn, whole, SourceBlock.queue, SortedMap.map, run]
    simp [List.map_take, List.map_map, Function.comp_def, encoded]
  · have none : block.unsent.take (nofSymbols - taken.length) = [] := by
      by_cases room : taken.length < nofSymbols
      · have closed : block.complete = true := by
          simpa [room] using open'
        simp [SourceBlock.unsent, closed]
      · simp [show nofSymbols - taken.length = 0 by omega]
    have noneIn : (unsentIn n block).take (nofSymbols - taken.length) = [] := by
      rw [unsentIn, ← List.map_take, none, List.map_nil]
    rw [none, noneIn]
    simp

theorem mem_take_unsentIn {n k m i : Nat} {block : SourceBlock} :
    (m, i) ∈ ((unsentIn n block).take k).map Placed.key ↔
      m = n ∧ i ∈ (block.unsent.take k).map Prod.fst := by
  rw [unsentIn, ← List.map_take, List.map_map]
  simp only [List.mem_map, Function.comp_apply, Placed.key, Prod.mk.injEq, Prod.exists]
  constructor
  · rintro ⟨_, symbol, member, rfl, rfl⟩
    exact ⟨rfl, _, symbol, member, rfl⟩
  · rintro ⟨rfl, _, symbol, member, rfl⟩
    exact ⟨_, symbol, member, rfl, rfl⟩

theorem block_of_mem_take {blocks : List (Nat × SourceBlock)} {k m i : Nat}
    (member : (m, i) ∈ ((blocks.flatMap fun e => unsentIn e.1 e.2).take k).map Placed.key) :
    m ∈ blocks.map Prod.fst := by
  obtain ⟨placed, inTake, same⟩ := List.mem_map.mp member
  obtain ⟨e, inBlocks, inBlock⟩ := List.mem_flatMap.mp (List.mem_of_mem_take inTake)
  obtain ⟨s, _, rfl⟩ := List.mem_map.mp inBlock
  obtain ⟨rfl, -⟩ := Prod.mk.inj same
  exact List.mem_map_of_mem inBlocks

theorem takeBlocks_eq (nofSymbols : Nat) (f : File) {blocks : List (Nat × SourceBlock)}
    (distinct : (blocks.map Prod.fst).Nodup) (taken : List EncodingSymbol) :
    SortedMap.mapAccumEntries (takeBlock nofSymbols f) blocks taken =
      (blocks.map fun e => (e.1, e.2.queue fun i => decide ((e.1, i) ∈
          ((blocks.flatMap fun e => unsentIn e.1 e.2).take (nofSymbols - taken.length)).map Placed.key)),
        taken ++ ((blocks.flatMap fun e => unsentIn e.1 e.2).take
          (nofSymbols - taken.length)).map f.encoded) := by
  induction blocks generalizing taken with
  | nil => simp [SortedMap.mapAccumEntries]
  | cons head rest ih =>
    obtain ⟨n, block⟩ := head
    simp only [List.map_cons, List.nodup_cons] at distinct
    simp only [SortedMap.mapAccumEntries, takeBlock_eq, ih distinct.2, List.flatMap_cons, List.take_append,
      List.map_append, List.append_assoc, List.map_cons, List.length_append, List.length_map, List.length_take]
    have budget : nofSymbols - (taken.length + min (nofSymbols - taken.length) (unsentIn n block).length) =
        nofSymbols - taken.length - (unsentIn n block).length := by omega
    rw [budget]
    simp only [List.mem_append, mem_take_unsentIn, Prod.mk.injEq, List.cons.injEq, true_and, and_true]
    constructor
    · have absent : ∀ i, (n, i) ∉ ((rest.flatMap fun e => unsentIn e.1 e.2).take
          (nofSymbols - taken.length - (unsentIn n block).length)).map Placed.key :=
        fun i member => distinct.1 (block_of_mem_take member)
      simp only [SourceBlock.queue, absent, or_false]
    · refine List.map_congr_left fun e member => ?_
      have other : e.1 ≠ n := fun same => distinct.1 (same ▸ List.mem_map_of_mem member)
      simp [other]

/-- `get_next_symbols` takes the first unsent symbols, as many as the payload
size divided by the symbol length allows, and queues exactly these. -/
theorem getNextSymbols_eq (f : File) (maxSize : Nat) :
    f.getNextSymbols maxSize = (ceilInt (subSize maxSize 4) f.fecOti.encodingSymbolLength >>= fun nofSymbols =>
      .ok ((f.unsent.take nofSymbols).map f.encoded,
        f.queue ((f.unsent.take nofSymbols).map Placed.key))) := by
  unfold getNextSymbols
  congr 1
  funext nofSymbols
  have run := takeBlocks_eq nofSymbols f f.sourceBlocks.nodup_keys []
  simp only [List.length_nil, Nat.sub_zero, List.nil_append] at run
  simp only [SortedMap.mapAccum, run]
  rfl

theorem symbol?_eq_some {f : File} {n i : Nat} {symbol : Symbol} :
    f.symbol? n i = some symbol ↔
      ∃ block, f.sourceBlocks.find? n = some block ∧ block.symbols.find? i = some symbol := by
  simp [symbol?, Option.bind_eq_some_iff]

theorem mem_unsent {f : File} {n i : Nat} {symbol : Symbol} :
    (⟨n, i, symbol⟩ : Placed) ∈ f.unsent ↔ ∃ block, f.sourceBlocks.find? n = some block ∧
      block.complete = false ∧ block.symbols.find? i = some symbol ∧ symbol.unsent = true := by
  simp only [unsent, unsentIn, List.mem_flatMap, List.mem_map, Placed.mk.injEq, Prod.exists,
    SortedMap.mem_entries]
  constructor
  · rintro ⟨_, block, found, _, _, member, rfl, rfl, rfl⟩
    unfold SourceBlock.unsent at member
    split_ifs at member with closed
    · simp at member
    · obtain ⟨inBlock, fresh⟩ := List.mem_filter.mp member
      exact ⟨block, found, by simpa using closed, SortedMap.mem_entries.mp inBlock, fresh⟩
  · rintro ⟨block, found, incomplete, inBlock, fresh⟩
    refine ⟨n, block, found, i, symbol, ?_, rfl, rfl, rfl⟩
    rw [SourceBlock.unsent, if_neg (by simp [incomplete])]
    exact List.mem_filter.mpr ⟨SortedMap.mem_entries.mpr inBlock, fresh⟩

theorem symbol?_of_mem_unsent {f : File} {placed : Placed} (member : placed ∈ f.unsent) :
    f.symbol? placed.block placed.id = some placed.symbol ∧ placed.symbol.complete = false ∧
      placed.symbol.queued = false := by
  obtain ⟨block, found, _, inBlock, fresh⟩ := mem_unsent.mp member
  have flags : placed.symbol.complete = false ∧ placed.symbol.queued = false := by
    simpa [Symbol.unsent] using fresh
  exact ⟨symbol?_eq_some.mpr ⟨block, found, inBlock⟩, flags⟩

/-- No symbol is listed twice. -/
theorem nodup_unsent (f : File) : (f.unsent.map Placed.key).Nodup := by
  have inBlock : ∀ n block, ((unsentIn n block).map Placed.key).Nodup := fun n block => by
    have ids : ((block.unsent).map Prod.fst).Nodup := by
      unfold SourceBlock.unsent
      split
      · exact List.nodup_nil
      · exact block.symbols.nodup_keys.sublist (List.filter_sublist.map Prod.fst)
    have keys : (unsentIn n block).map Placed.key = (block.unsent.map Prod.fst).map (Prod.mk n) := by
      simp [unsentIn, Function.comp_def, Placed.key]
    rw [keys]
    exact ids.map (Prod.mk_right_injective n)
  rw [unsent, List.map_flatMap, List.nodup_flatMap]
  refine ⟨fun e _ => inBlock e.1 e.2, ?_⟩
  refine (List.pairwise_map.mp f.sourceBlocks.nodup_keys).imp fun {a b} different => ?_
  rintro ⟨n, i⟩ first second
  simp only [unsentIn, List.map_map, List.mem_map, Function.comp_apply, Placed.key, Prod.mk.injEq] at first second
  obtain ⟨_, _, rfl, _⟩ := first
  obtain ⟨_, _, same, _⟩ := second
  exact different same.symm

@[simp] theorem symbol?_queue (f : File) (keys : List (Nat × Nat)) (n i : Nat) :
    (f.queue keys).symbol? n i = (f.symbol? n i).map fun s => s.queueIf (decide ((n, i) ∈ keys)) := by
  simp only [symbol?, queue, SortedMap.find?_map]
  cases f.sourceBlocks.find? n with
  | none => rfl
  | some block => simp [SourceBlock.queue, SortedMap.find?_map]

end File
end Libflute

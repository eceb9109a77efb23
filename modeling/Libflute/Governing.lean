import Libflute.ReceiverSpec
import Libflute.SampleDatagrams

/-! Whether the files held after a table was processed are those it describes. -/

namespace Libflute

/-- Two entries say the same about how a file is received. -/
structure FileEntry.SameMetadata (a b : FileEntry) : Prop where
  contentLocation : a.contentLocation = b.contentLocation
  contentLength : a.contentLength = b.contentLength
  fecOti : a.fecOti = b.fecOti
  contentMd5 : a.contentMd5 = b.contentMd5
  contentEncoding : a.contentEncoding = b.contentEncoding

instance (a b : FileEntry) : Decidable (a.SameMetadata b) :=
  decidable_of_iff (a.contentLocation = b.contentLocation ∧ a.contentLength = b.contentLength ∧ a.fecOti = b.fecOti ∧
      a.contentMd5 = b.contentMd5 ∧ a.contentEncoding = b.contentEncoding)
    ⟨fun ⟨a, b, c, d, e⟩ => ⟨a, b, c, d, e⟩, fun same =>
      ⟨same.contentLocation, same.contentLength, same.fecOti, same.contentMd5, same.contentEncoding⟩⟩

namespace Receiver
variable {env : Env} {r : Receiver} {table : FileDeliveryTable}

/-- The location of the file under TOI 0, also of one that is still to be made. -/
def fdtLocation (r : Receiver) : String :=
  match r.files.find? 0 with
  | some f => f.entry.contentLocation
  | none => ""

/-- Every file a table lists is held with the metadata of its entry. -/
def GovernedBy (r : Receiver) (table : FileDeliveryTable) : Prop :=
  ∀ fe ∈ table.fileEntries, ∃ f, r.files.find? fe.toi = some f ∧ f.entry.SameMetadata fe

/-- The files that are held under TOIs of a table, and that its own completion
does not drop, have the metadata of its entries. -/
def Agrees (r : Receiver) (table : FileDeliveryTable) : Prop :=
  ∀ fe ∈ table.fileEntries, fe.toi ≠ 0 → ∀ f, r.files.find? fe.toi = some f →
    f.entry.contentLocation ≠ r.fdtLocation → f.entry.SameMetadata fe

theorem startFiles_processed {entries : List FileEntry} : .processed table ∉ (startFiles env r entries).seen := by
  induction entries generalizing r with
  | nil => simp [startFiles]
  | cons fe rest ih =>
    rw [startFiles]
    split
    · exact ih
    · split
      · simp
      · rw [HandlerResult.andThen_of_ok rfl]
        simp [ih]

/-- The files at the start of the loop over the entries of the table the handler processed. -/
theorem parseFdt_processed {instanceId : Nat} {file : File}
    (processed : .processed table ∈ (parseFdt env r instanceId file).seen) :
    (startFiles env ({ r with fdt := some table }.eraseFile 0) table.fileEntries).ending = .ok () ∧
      (parseFdt env r instanceId file).state =
        (startFiles env ({ r with fdt := some table }.eraseFile 0) table.fileEntries).state := by
  unfold parseFdt at processed ⊢
  split at processed
  · simp at processed
  · next other parsed =>
    rw [HandlerResult.andThen_of_ok rfl] at processed ⊢
    rw [List.mem_append, HandlerResult.mem_andThen_seen] at processed
    rcases processed with early | started | ⟨ends, last⟩
    · simp at early
    · exact absurd started startFiles_processed
    · obtain rfl := ReceiverOutput.processed.inj (List.mem_singleton.mp last)
      exact ⟨ends, by rw [HandlerResult.andThen_of_ok ends]⟩

/-- A state at the start of the loop over the entries of a table: of the files
under other TOIs those with another location than the table's file are left. -/
structure StartsFrom (env : Env) (r : Receiver) (location : String) (table : FileDeliveryTable) (base : Receiver)
    (result : HandlerResult) : Prop where
  held : ∀ toi f, base.files.find? toi = some f ↔
    toi ≠ 0 ∧ r.files.find? toi = some f ∧ f.entry.contentLocation ≠ location
  ends : (startFiles env base table.fileEntries).ending = .ok ()
  state : result.state = (startFiles env base table.fileEntries).state

theorem completeFile_processed {toi instanceId : Nat} {file : File}
    (processed : .processed table ∈ (completeFile env r toi instanceId file).seen) :
    toi = 0 ∧ ∃ base, StartsFrom env r file.entry.contentLocation table base
      (completeFile env r toi instanceId file) := by
  unfold completeFile at processed ⊢
  cases decoding : file.decode env with
  | mk decoded ending =>
    rw [decoding] at processed
    dsimp only at processed ⊢
    rw [HandlerResult.mem_andThen_seen] at processed
    rcases processed with early | ⟨ends, later⟩
    · simp at early
    · rw [HandlerResult.andThen_of_ok ends]
      split at later
      · next zero =>
        subst zero
        obtain ⟨done, state⟩ := parseFdt_processed later
        refine ⟨rfl, _, ⟨fun other f => ?_, done, by rw [if_pos rfl]; exact state⟩⟩
        change ((SortedMap.insertOrAssign _ 0 decoded).erase 0).find? other = some f ↔ _
        rw [SortedMap.find?_erase, SortedMap.find?_insertOrAssign, SortedMap.find?_filter]
        by_cases zero : other = 0
        · simp [zero]
        · simp [zero, Option.filter_eq_some_iff]
      · split at later <;> simp at later

theorem receiveSymbols_processed {alc : AlcPacket} {len : Nat}
    (processed : .processed table ∈ (receiveSymbols env r alc len).seen) :
    ∃ f base, r.files.find? 0 = some f ∧
      StartsFrom env r f.entry.contentLocation table base (receiveSymbols env r alc len) := by
  rcases receiveSymbols_cases env r alc len with ⟨ending, run⟩ | ⟨before, after, symbols, stored, stores, run⟩
  · rw [run] at processed
    simp at processed
  · rw [run, HandlerResult.mem_andThen_seen] at processed
    rcases processed with early | ⟨ends, later⟩
    · simp at early
    · rw [run, HandlerResult.andThen_of_ok ends]
      split at later
      · next complete =>
        rw [if_pos complete]
        obtain ⟨zero, base, start⟩ := completeFile_processed later
        have location : after.entry.contentLocation = before.entry.contentLocation := by rw [stores.entry]
        have found := stores.found
        rw [zero] at found
        refine ⟨before, base, found, ⟨fun toi f => ?_, start.ends, start.state⟩⟩
        rw [start.held, location, zero]
        refine and_congr_right fun other => and_congr_left fun _ => ?_
        rw [find?_setFile, if_neg other]
      · simp at later

theorem handlePacket_processed {alc : AlcPacket} {len : Nat}
    (processed : .processed table ∈ (handlePacket env r alc len).seen) :
    ∃ base, StartsFrom env r r.fdtLocation table base (handlePacket env r alc len) := by
  unfold handlePacket at processed ⊢
  rcases startFdt_cases env r alc with ⟨ending, run⟩ | ⟨new, _, _, absent, made, run⟩
  · rw [run, HandlerResult.mem_andThen_seen] at processed
    rcases processed with early | ⟨ends, later⟩
    · simp at early
    · rw [run, HandlerResult.andThen_of_ok ends]
      obtain ⟨f, base, found, start⟩ := receiveSymbols_processed later
      have location : r.fdtLocation = f.entry.contentLocation := by rw [fdtLocation, found]
      exact ⟨base, location ▸ start⟩
  · rw [run, HandlerResult.mem_andThen_seen] at processed
    rcases processed with early | ⟨ends, later⟩
    · simp at early
    · rw [run, HandlerResult.andThen_of_ok ends]
      obtain ⟨f, base, found, start⟩ := receiveSymbols_processed later
      have inserted : ∀ toi, (r.files.insert 0 new).find? toi = if toi = 0 then some new else r.files.find? toi := by
        intro toi
        rw [SortedMap.find?_insert, absent]
        rfl
      obtain rfl : new = f := by
        have same := (inserted 0).symm.trans found
        rw [if_pos rfl] at same
        exact Option.some.inj same
      have location : r.fdtLocation = new.entry.contentLocation := by
        rw [fdtLocation, absent, File.ofEntry_entry made]
      refine ⟨base, ⟨fun toi f => ?_, start.ends, start.state⟩⟩
      rw [start.held, location]
      refine and_congr_right fun other => and_congr_left fun _ => ?_
      change (r.files.insert 0 new).find? toi = some f ↔ _
      rw [inserted, if_neg other]

theorem step_processed {r' : Receiver} {out : List ReceiverOutput} {datagram : List UInt8}
    (step : (receiver env).step r (.datagram datagram) = some (r', out)) (processed : .processed table ∈ out) :
    ∃ base, (∀ toi f, base.files.find? toi = some f ↔
        toi ≠ 0 ∧ r.files.find? toi = some f ∧ f.entry.contentLocation ≠ r.fdtLocation) ∧
      (startFiles env base table.fileEntries).ending = .ok () ∧
      r'.files = (startFiles env base table.fileEntries).state.files := by
  obtain ⟨_, rfl, outputs⟩ := receiver_step_datagram step
  have seen : .processed table ∈ (r.handleReceiveFrom env datagram).seen := by
    rcases outputs with ⟨_, rfl⟩ | ⟨what, _, rfl⟩
    · exact processed
    · simpa using processed
  rcases handleReceiveFrom_cases env r datagram with ⟨_, run⟩ | ⟨_, armed, state, same⟩
  · rw [run] at seen
    simp at seen
  rw [same] at seen
  rcases tryBlock_cases env (r.arrived datagram) (min maxDatagram datagram.length) with
    ⟨ending, run⟩ | ⟨alc, _, _, run⟩
  · rw [run] at seen
    simp at seen
  · rw [run] at seen state
    obtain ⟨base, start⟩ := handlePacket_processed seen
    exact ⟨base, start.held, start.ends, by rw [state, start.state]⟩

/-- In every run, right after a table was processed it governs the files it
lists exactly when the files held before under its TOIs agreed with it. -/
theorem governed_iff (env : Env) (r : Receiver) (log : List ReceiverOutput) :
    (receiver env).Reach Machine.always r log → ∀ datagram r' out,
      (receiver env).step r (.datagram datagram) = some (r', out) → ∀ table, .processed table ∈ out →
        (table.fileEntries.map FileEntry.toi).Nodup → (r'.GovernedBy table ↔ r.Agrees table) := by
  intro _ datagram r' out step table processed distinct
  obtain ⟨base, held, ends, files⟩ := step_processed step processed
  constructor
  · intro governed fe listed other f found elsewhere
    obtain ⟨now, here, same⟩ := governed fe listed
    rw [files, startFiles_kept ((held fe.toi f).mpr ⟨other, found, elsewhere⟩)] at here
    exact Option.some.inj here ▸ same
  · intro agrees fe listed
    rw [files]
    cases before : base.files.find? fe.toi with
    | some f =>
      obtain ⟨other, found, elsewhere⟩ := (held fe.toi f).mp before
      exact ⟨f, startFiles_kept before, agrees fe listed other f found elsewhere⟩
    | none =>
      obtain ⟨f, made, here⟩ := startFiles_fresh distinct ends listed before
      refine ⟨f, here, ?_⟩
      rw [File.ofEntry_entry made]
      exact ⟨rfl, rfl, rfl, rfl, rfl⟩

def oldTable : SampleTable where
  files := [listedFile "1" "f" "3"]

def newTable : SampleTable where
  files := [listedFile "1" "g" "5"]

/-- The next instance lists the file again and one more. -/
def longerTable : SampleTable where
  files := [listedFile "1" "f" "3", listedFile "2" "g" "5"]

/-- A table that lists files that are held with the metadata they have. -/
def relists (r : Receiver) (table : FileDeliveryTable) : Bool :=
  decide (table.fileEntries.map FileEntry.toi).Nodup &&
    table.fileEntries.any (fun fe => (r.files.find? fe.toi).isSome) &&
    table.fileEntries.all fun fe => (r.files.find? fe.toi).all fun f => decide (f.entry.SameMetadata fe)

theorem governed_iff_longer : ∃ r log r' out table,
    (receiver (tablesEnv [oldTable, longerTable] [])).Reach Machine.always r log ∧
    (receiver (tablesEnv [oldTable, longerTable] [])).step r (.datagram (fdtPacket 2 longerTable)) = some (r', out) ∧
    .processed table ∈ out ∧ (∃ fe ∈ table.fileEntries, ∃ f, r.files.find? fe.toi = some f) ∧ r'.GovernedBy table := by
  obtain ⟨r, log, reach, checked⟩ := Machine.exists_reach (M := receiver (tablesEnv [oldTable, longerTable] []))
    Machine.always (fun _ _ => true) idleReceiver [.datagram (fdtPacket 1 oldTable)]
    (fun r => ((receiver (tablesEnv [oldTable, longerTable] [])).step r.1
        (.datagram (fdtPacket 2 longerTable))).any fun result => result.2.any fun output => output.table?.any r.1.relists)
    (fun _ _ _ _ => trivial) ⟨rfl, rfl, rfl, rfl, rfl⟩ (by decide +kernel)
  obtain ⟨⟨r', out⟩, step, one⟩ := (Option.any_eq_true _ _).mp checked
  obtain ⟨table, seen, again⟩ := ReceiverOutput.processed_of_any r.relists one
  simp only [relists, Bool.and_eq_true, decide_eq_true_eq, List.any_eq_true, List.all_eq_true, Option.all_eq_true,
    Option.isSome_iff_exists] at again
  obtain ⟨⟨distinct, held⟩, same⟩ := again
  exact ⟨r, log, r', out, table, reach, step, seen, held,
    (governed_iff _ _ _ reach _ r' out step table seen distinct).mpr fun fe listed _ f found _ => same fe listed f found⟩

/-- A table that lists a file that is held with another location. -/
def relocates (r : Receiver) (table : FileDeliveryTable) : Bool :=
  decide (table.fileEntries.map FileEntry.toi).Nodup && table.fileEntries.any fun fe =>
    (r.files.find? fe.toi).any fun f => f.entry.contentLocation ≠ fe.contentLocation

/-- A file begun for an earlier table is kept under the TOI a later table lists anew. -/
theorem not_governed : ¬ ∀ (env : Env) (r : Receiver) (log : List ReceiverOutput),
    (receiver env).Reach Machine.always r log → ∀ datagram r' out,
      (receiver env).step r (.datagram datagram) = some (r', out) → ∀ table, .processed table ∈ out →
        (table.fileEntries.map FileEntry.toi).Nodup → r'.GovernedBy table := by
  intro claim
  obtain ⟨r, log, reach, checked⟩ := Machine.exists_reach (M := receiver (tablesEnv [oldTable, newTable] []))
    Machine.always (fun _ _ => true) idleReceiver [.datagram (fdtPacket 1 oldTable)]
    (fun r => ((receiver (tablesEnv [oldTable, newTable] [])).step r.1
        (.datagram (fdtPacket 2 newTable))).any fun result =>
      result.2.any fun output => output.table?.any result.1.relocates)
    (fun _ _ _ _ => trivial) ⟨rfl, rfl, rfl, rfl, rfl⟩ (by decide +kernel)
  obtain ⟨⟨r', out⟩, step, wrong⟩ := (Option.any_eq_true _ _).mp checked
  obtain ⟨table, seen, wrong⟩ := ReceiverOutput.processed_of_any r'.relocates wrong
  simp only [relocates, Bool.and_eq_true, decide_eq_true_eq, List.any_eq_true, Option.any_eq_true] at wrong
  obtain ⟨distinct, fe, listed, f, held, other⟩ := wrong
  obtain ⟨g, here, same⟩ := claim _ r log reach _ r' out step table seen distinct fe listed
  obtain rfl := Option.some.inj (here.symm.trans held)
  exact other same.contentLocation

end Receiver
end Libflute

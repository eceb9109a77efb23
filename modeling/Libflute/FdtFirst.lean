import Libflute.Agreement

/-! The FDT that lists a file is sent before the file. -/

namespace Libflute

/-- The object is an FDT file that lists the TOI. -/
def FdtLists (log : List TransmitterOutput) (o k : Nat) : Prop :=
  ∃ table f, .built o table f ∈ log ∧ k ∈ table.fileEntries.map FileEntry.toi

/-- Every symbol of some FDT file that lists the TOI has been handed to the socket. -/
def FdtHanded (log : List TransmitterOutput) (k : Nat) : Prop :=
  ∃ o table f, .built o table f ∈ log ∧ k ∈ table.fileEntries.map FileEntry.toi ∧
    ∀ key, f.Holds key → HandedIn log o key

/-- Packets have carried every symbol of some FDT file that lists the TOI. -/
def Announced (log : List TransmitterOutput) (k : Nat) : Prop :=
  ∃ o table f, .built o table f ∈ log ∧ k ∈ table.fileEntries.map FileEntry.toi ∧
    ∀ key, f.Holds key → CarriedIn log o f key

/-- No packet of a file is handed over before an FDT that lists it has been sent. -/
def FdtFirst (log : List TransmitterOutput) : Prop :=
  ∀ before after o toi fecOti symbols packet datagram,
    log = before ++ .handed o toi fecOti symbols packet datagram :: after → toi ≠ 0 → Announced before toi

/-- No packet of a file is handed over before the symbols of an FDT that lists it. -/
def HandedFirst (log : List TransmitterOutput) : Prop :=
  ∀ before after o toi fecOti symbols packet datagram,
    log = before ++ .handed o toi fecOti symbols packet datagram :: after → toi ≠ 0 → FdtHanded before toi

theorem FdtLists.append {log : List TransmitterOutput} {o k : Nat} (lists : FdtLists log o k)
    (out : List TransmitterOutput) : FdtLists (log ++ out) o k := by
  obtain ⟨table, f, built, listed⟩ := lists
  exact ⟨table, f, List.mem_append_left out built, listed⟩

theorem FdtHanded.append {log : List TransmitterOutput} {k : Nat} (announced : FdtHanded log k)
    (out : List TransmitterOutput) : FdtHanded (log ++ out) k := by
  obtain ⟨o, table, f, built, listed, handed⟩ := announced
  exact ⟨o, table, f, List.mem_append_left out built, listed, fun key held => (handed key held).append out⟩

theorem HandedFirst.announced {log : List TransmitterOutput} (first : HandedFirst log) {o toi : Nat} {fecOti : FecOti}
    {symbols : List EncodingSymbol} {packet datagram : List UInt8}
    (member : .handed o toi fecOti symbols packet datagram ∈ log) (data : toi ≠ 0) : FdtHanded log toi := by
  obtain ⟨before, after, rfl⟩ := List.append_of_mem member
  exact (first before after o toi fecOti symbols packet datagram rfl data).append _

/-- A step in which no packet of a file goes out, or the packet of a file that is announced. -/
theorem HandedFirst.step {log out : List TransmitterOutput} (first : HandedFirst log)
    (announced : ∀ o toi fecOti symbols packet datagram, .handed o toi fecOti symbols packet datagram ∈ out →
      toi ≠ 0 → FdtHanded log toi) : HandedFirst (log ++ out) := by
  intro before after o toi fecOti symbols packet datagram split data
  rcases List.append_eq_append_iff.mp split with ⟨mid, rfl, tail⟩ | ⟨mid, rfl, tail⟩
  · have inOut : .handed o toi fecOti symbols packet datagram ∈ out := by rw [tail]; simp
    exact (announced o toi fecOti symbols packet datagram inOut data).append mid
  · cases mid with
    | nil =>
      rw [List.append_nil] at announced
      exact announced o toi fecOti symbols packet datagram (by rw [← List.nil_append out, ← tail]; simp) data
    | cons m ms =>
      obtain ⟨rfl, same⟩ := List.cons.inj tail
      exact first before ms o toi fecOti symbols packet datagram rfl data

namespace Transmitter
variable {env : Env} {t t' : Transmitter} {e : TransmitterEvent} {log out : List TransmitterOutput}

/-- The file is in the queue, but the FDT that lists it is not there yet. -/
def Unannounced (t : Transmitter) (o : Nat) : Prop :=
  .addEntry o ∈ t.call ∨ ∃ n toi, t.call = [.storeFdt n, .markSent, .returns toi o]

/-- A step in which `send_next_packet` takes a symbol of the file. -/
def Serves (t : Transmitter) (e : TransmitterEvent) (o : Nat) : Prop :=
  (e = .sendNextPacket ∧ t.active = true ∨ e = .activate ∧ t.active = false) ∧
    ∃ k f, t.nextFile = some (k, o) ∧ t.object? o = some f ∧ f.unsent ≠ []

/-- Packets have room for their symbols, no FDT file is replaced that its outstanding
sends would complete, no file is served before the FDT that lists it is in the
queue, and the second overload of `send` gets the memory for that FDT. -/
structure AnnouncesFirst (env : Env) (t : Transmitter) (e : TransmitterEvent) : Prop where
  room : e.sends = true → t.PacketFits
  waits : t.StoresFdt e → ¬ t.FdtFinishing
  serves : ∀ o, t.Serves e o → ¬ t.Unannounced o
  fits : ∀ now o rest f, e = .continueSend now → t.call = .addEntry o :: rest → t.object? o = some f →
    FdtFits env (t.fdt.add f.entry) now

/-- The TOI is announced, or will be by the FDT file in the queue. -/
def Covered (t : Transmitter) (log : List TransmitterOutput) (k : Nat) : Prop :=
  FdtHanded log k ∨ ∃ o, t.files.find? 0 = some o ∧ FdtLists log o k

/-- What is known of the TOIs in the queue and in the call of `send` under way. -/
structure Announcing (t : Transmitter) (log : List TransmitterOutput) : Prop where
  first : HandedFirst log
  built : ∀ o table f, .built o table f ∈ log → ∃ g, t.object? o = some g ∧ f.Later g
  queue : ∀ k o, k ≠ 0 → t.files.find? k = some o → t.Covered log k ∨ t.Unannounced o
  table : ∀ k o, k ≠ 0 → t.Queues k o →
    FdtHanded log k ∨ k ∈ t.fdt.fileEntries.map FileEntry.toi ∨ .addEntry o ∈ t.call
  pending : ∀ n, .storeFdt n ∈ t.call → ∀ k o, k ≠ 0 → t.Queues k o → FdtHanded log k ∨ FdtLists log n k
  inserting : ∀ k o, k ≠ 0 → (k, o) ∈ t.call.filterMap SendStep.inserts →
    (∃ n, .storeFdt n ∈ t.call) ∨ .addEntry o ∈ t.call ∨ t.Covered log k

theorem Covered.step {k : Nat} (covered : t.Covered log k)
    (fdt : ∀ o, t.files.find? 0 = some o → FdtLists log o k → t'.Covered (log ++ out) k) : t'.Covered (log ++ out) k := by
  rcases covered with announced | ⟨o, stored, lists⟩
  · exact Or.inl (announced.append out)
  · exact fdt o stored lists

theorem built_step {log out : List TransmitterOutput}
    (before : ∀ o table f, .built o table f ∈ log → ∃ g, t.object? o = some g ∧ f.Later g)
    (later : ∀ o f, t.object? o = some f → ∃ g, t'.object? o = some g ∧ f.Later g)
    (now : ∀ o table f, .built o table f ∈ out → t'.object? o = some f) :
    ∀ o table f, .built o table f ∈ log ++ out → ∃ g, t'.object? o = some g ∧ f.Later g := by
  intro o table f member
  rcases List.mem_append.mp member with old | new
  · obtain ⟨g, found, later₁⟩ := before o table f old
    obtain ⟨h, found', later₂⟩ := later o g found
    exact ⟨h, found', later₂.entry.trans later₁.entry, later₂.buffer.trans later₁.buffer,
      later₂.shape.trans later₁.shape, later₂.fdtInstanceId.trans later₁.fdtInstanceId⟩
  · exact ⟨f, now o table f new, .refl f⟩

/-- A step that leaves the queue, the TOIs in the table and the call as they are. -/
theorem Announcing.frame (announcing : t.Announcing log) (files : t'.files = t.files) (call : t'.call = t.call)
    (table : ∀ k, k ∈ t.fdt.fileEntries.map FileEntry.toi → k ∈ t'.fdt.fileEntries.map FileEntry.toi)
    (first : HandedFirst (log ++ out))
    (built : ∀ o table f, .built o table f ∈ log ++ out → ∃ g, t'.object? o = some g ∧ f.Later g) :
    t'.Announcing (log ++ out) where
  first := first
  built := built
  queue := fun k o data stored => by
    rw [files] at stored
    rcases announcing.queue k o data stored with covered | unannounced
    · exact Or.inl (covered.step fun p fdt lists => Or.inr ⟨p, files ▸ fdt, lists.append out⟩)
    · refine Or.inr ?_
      rw [Unannounced, call]
      exact unannounced
  table := fun k o data queues => by
    rw [Queues, files, call] at queues
    rw [call]
    exact (announcing.table k o data queues).imp (fun announced => announced.append out) (Or.imp_left (table k))
  pending := fun n member k o data queues => by
    rw [Queues, files, call] at queues
    rw [call] at member
    exact (announcing.pending n member k o data queues).imp (fun announced => announced.append out)
      fun lists => lists.append out
  inserting := fun k o data member => by
    rw [call] at member ⊢
    exact (announcing.inserting k o data member).imp_right (Or.imp_right fun covered =>
      covered.step fun p fdt lists => Or.inr ⟨p, files ▸ fdt, lists.append out⟩)

theorem Queues.of_files {k o : Nat} (stored : t.files.find? k = some o) : t.Queues k o := Or.inl stored

/-- A new FDT file made of the table goes into the queue. -/
theorem Announcing.store (announcing : t.Announcing log) {n : Nat} {table : FileDeliveryTable} {f : File}
    (same : table.fileEntries = t.fdt.fileEntries) (built : .built n table f ∈ out)
    (files : ∀ k, t'.files.find? k = if k = 0 then some n else t.files.find? k) (call : t'.call = t.call)
    (entries : t'.fdt.fileEntries = t.fdt.fileEntries) (first : HandedFirst (log ++ out))
    (known : ∀ o table f, .built o table f ∈ log ++ out → ∃ g, t'.object? o = some g ∧ f.Later g) :
    t'.Announcing (log ++ out) := by
  have lists : ∀ k, k ∈ t.fdt.fileEntries.map FileEntry.toi → FdtLists (log ++ out) n k := fun k listed =>
    ⟨table, f, List.mem_append_right log built, by rw [same]; exact listed⟩
  have stored : t'.files.find? 0 = some n := by rw [files, if_pos rfl]
  have others : ∀ k, k ≠ 0 → t'.files.find? k = t.files.find? k := fun k data => by rw [files, if_neg data]
  have queues : ∀ k o, k ≠ 0 → t'.Queues k o → t.Queues k o := fun k o data queues => by
    rw [Queues, others k data, call] at queues
    exact queues
  refine ⟨first, known, fun k o data inQueue => ?_, fun k o data queued => ?_, fun m member k o data queued => ?_,
    fun k o data member => ?_⟩
  · rw [others k data] at inQueue
    rcases announcing.table k o data (.of_files inQueue) with announced | listed | adds
    · exact Or.inl (Or.inl (announced.append out))
    · exact Or.inl (Or.inr ⟨n, stored, lists k listed⟩)
    · exact Or.inr (Or.inl (call ▸ adds))
  · rw [entries, call]
    exact (announcing.table k o data (queues k o data queued)).imp_left fun announced => announced.append out
  · rw [call] at member
    exact (announcing.pending m member k o data (queues k o data queued)).imp
      (fun announced => announced.append out) fun lists => lists.append out
  · rw [call] at member ⊢
    rcases announcing.table k o data (Or.inr member) with announced | listed | adds
    · exact Or.inr (Or.inr (Or.inl (announced.append out)))
    · exact Or.inr (Or.inr (Or.inr ⟨n, stored, lists k listed⟩))
    · exact Or.inr (Or.inl adds)

/-- The FDT file in the queue has been handed over and leaves it. -/
theorem Announcing.finishFdt (announcing : t.Announcing log)
    (announced : ∀ o k, t.files.find? 0 = some o → FdtLists log o k → FdtHanded (log ++ out) k)
    (files : ∀ k, k ≠ 0 → t'.files.find? k = t.files.find? k) (call : t'.call = t.call)
    (entries : t'.fdt.fileEntries = t.fdt.fileEntries) (first : HandedFirst (log ++ out))
    (known : ∀ o table f, .built o table f ∈ log ++ out → ∃ g, t'.object? o = some g ∧ f.Later g) :
    t'.Announcing (log ++ out) := by
  have queues : ∀ k o, k ≠ 0 → t'.Queues k o → t.Queues k o := fun k o data queues => by
    rw [Queues, files k data, call] at queues
    exact queues
  have covered : ∀ k, t.Covered log k → t'.Covered (log ++ out) k := fun k covered =>
    covered.step fun o stored lists => Or.inl (announced o k stored lists)
  refine ⟨first, known, fun k o data inQueue => ?_, fun k o data queued => ?_, fun m member k o data queued => ?_,
    fun k o data member => ?_⟩
  · rw [files k data] at inQueue
    rw [Unannounced, call]
    exact (announcing.queue k o data inQueue).imp_left (covered k)
  · rw [entries, call]
    exact (announcing.table k o data (queues k o data queued)).imp_left fun announced => announced.append out
  · rw [call] at member
    exact (announcing.pending m member k o data (queues k o data queued)).imp
      (fun announced => announced.append out) fun lists => lists.append out
  · rw [call] at member ⊢
    exact (announcing.inserting k o data member).imp_right (Or.imp_right (covered k))

/-- A file of the application has been handed over, and leaves the queue and the table. -/
theorem Announcing.finish (announcing : t.Announcing log) {gone : Nat} (announced : FdtHanded log gone)
    (data : gone ≠ 0) (files : t'.files = t.files.erase gone) (call : t'.call = t.call)
    (entries : t'.fdt.fileEntries = t.fdt.fileEntries.filter fun fe => fe.toi ≠ gone)
    (first : HandedFirst (log ++ out))
    (known : ∀ o table f, .built o table f ∈ log ++ out → ∃ g, t'.object? o = some g ∧ f.Later g) :
    t'.Announcing (log ++ out) := by
  have fdt : t'.files.find? 0 = t.files.find? 0 := by
    rw [files, SortedMap.find?_erase, if_neg (Ne.symm data)]
  have fewer : ∀ k o, t'.files.find? k = some o → t.files.find? k = some o := fun k o stored => by
    rw [files, SortedMap.find?_erase] at stored
    split_ifs at stored
    exact stored
  have queues : ∀ k o, t'.Queues k o → t.Queues k o := fun k o queues => by
    rw [Queues, call] at queues
    exact queues.imp_left (fewer k o)
  have covered : ∀ k, t.Covered log k → t'.Covered (log ++ out) k := fun k covered =>
    covered.step fun o stored lists => Or.inr ⟨o, fdt.trans stored, lists.append out⟩
  refine ⟨first, known, fun k o some inQueue => ?_, fun k o some queued => ?_, fun m member k o some queued => ?_,
    fun k o some member => ?_⟩
  · rw [Unannounced, call]
    exact (announcing.queue k o some (fewer k o inQueue)).imp_left (covered k)
  · by_cases same : k = gone
    · exact Or.inl (same ▸ announced.append out)
    · rw [entries, call]
      refine (announcing.table k o some (queues k o queued)).imp (fun announced => announced.append out)
        (Or.imp_left fun listed => ?_)
      obtain ⟨fe, member, rfl⟩ := List.mem_map.mp listed
      exact List.mem_map_of_mem (List.mem_filter.mpr ⟨member, by simpa using same⟩)
  · rw [call] at member
    exact (announcing.pending m member k o some (queues k o queued)).imp
      (fun announced => announced.append out) fun lists => lists.append out
  · rw [call] at member ⊢
    exact (announcing.inserting k o some member).imp_right (Or.imp_right (covered k))

/-- The first overload of `send` has added its file to the table and made the FDT file. -/
theorem Announcing.begin (announcing : t.Announcing log) (idle : t.call = []) {n k o : Nat} {fe : FileEntry}
    {table : FileDeliveryTable} {f : File} (toi : fe.toi = k) (built : .built n table f ∈ out)
    (same : table.fileEntries = t.fdt.fileEntries ++ [fe]) (files : t'.files = t.files)
    (call : t'.call = [.storeFdt n, .markSent, .insertFile k o, .returns k o])
    (entries : t'.fdt.fileEntries = t.fdt.fileEntries ++ [fe]) (first : HandedFirst (log ++ out))
    (known : ∀ o table f, .built o table f ∈ log ++ out → ∃ g, t'.object? o = some g ∧ f.Later g) :
    t'.Announcing (log ++ out) := by
  have listed : ∀ j p, j ≠ 0 → t'.Queues j p →
      FdtHanded (log ++ out) j ∨ j ∈ (t.fdt.fileEntries ++ [fe]).map FileEntry.toi := by
    intro j p data queued
    rw [Queues, files, call] at queued
    rcases queued with old | new
    · rcases announcing.table j p data (.of_files old) with announced | inTable | adds
      · exact Or.inl (announced.append out)
      · exact Or.inr (by rw [List.map_append]; exact List.mem_append_left _ inTable)
      · rw [idle] at adds
        cases adds
    · obtain ⟨rfl, rfl⟩ := Prod.mk.inj (List.mem_singleton.mp new)
      exact Or.inr (by rw [List.map_append, ← toi]; simp)
  refine ⟨first, known, fun j p data inQueue => ?_, fun j p data queued => ?_, fun m member j p data queued => ?_,
    fun j p data member => Or.inl ⟨n, by rw [call]; simp⟩⟩
  · rw [files] at inQueue
    rcases announcing.queue j p data inQueue with covered | unannounced
    · exact Or.inl (covered.step fun q stored lists => Or.inr ⟨q, files ▸ stored, lists.append out⟩)
    · rw [Unannounced, idle] at unannounced
      rcases unannounced with adds | ⟨_, _, same⟩
      · cases adds
      · cases same
  · rw [entries]
    exact (listed j p data queued).imp_right Or.inl
  · rw [call] at member
    obtain rfl : m = n := by simpa using member
    exact (listed j p data queued).imp_right fun inTable =>
      ⟨table, f, List.mem_append_right log built, by rw [same]; exact inTable⟩

/-- The second overload of `send` has made its file. -/
theorem Announcing.describe (announcing : t.Announcing log) (idle : t.call = []) {k o : Nat}
    (files : t'.files = t.files) (call : t'.call = [.insertFile k o, .addEntry o, .returns k o])
    (entries : t'.fdt.fileEntries = t.fdt.fileEntries) (first : HandedFirst (log ++ out))
    (known : ∀ o table f, .built o table f ∈ log ++ out → ∃ g, t'.object? o = some g ∧ f.Later g) :
    t'.Announcing (log ++ out) := by
  refine ⟨first, known, fun j p data inQueue => ?_, fun j p data queued => ?_, fun m member => ?_,
    fun j p data member => ?_⟩
  · rw [files] at inQueue
    rcases announcing.queue j p data inQueue with covered | unannounced
    · exact Or.inl (covered.step fun q stored lists => Or.inr ⟨q, files ▸ stored, lists.append out⟩)
    · rw [Unannounced, idle] at unannounced
      rcases unannounced with adds | ⟨_, _, same⟩
      · cases adds
      · cases same
  · rw [Queues, files, call] at queued
    rw [entries, call]
    rcases queued with old | new
    · rcases announcing.table j p data (.of_files old) with announced | inTable | adds
      · exact Or.inl (announced.append out)
      · exact Or.inr (Or.inl inTable)
      · rw [idle] at adds
        cases adds
    · obtain ⟨rfl, rfl⟩ := Prod.mk.inj (List.mem_singleton.mp new)
      exact Or.inr (Or.inr (by simp))
  · rw [call] at member
    simp at member
  · rw [call] at member ⊢
    obtain ⟨rfl, rfl⟩ := Prod.mk.inj (List.mem_singleton.mp member)
    exact Or.inr (Or.inl (by simp))

/-- The FDT file of the call goes into the queue. -/
theorem Announcing.storePending (announcing : t.Announcing log) {n : Nat} {rest : List SendStep}
    (call : t.call = .storeFdt n :: rest) (files : t'.files = t.files.insertOrAssign 0 n) (call' : t'.call = rest)
    (entries : t'.fdt.fileEntries = t.fdt.fileEntries) (first : HandedFirst (log ++ out))
    (known : ∀ o table f, .built o table f ∈ log ++ out → ∃ g, t'.object? o = some g ∧ f.Later g) :
    t'.Announcing (log ++ out) := by
  have others : ∀ k, k ≠ 0 → t'.files.find? k = t.files.find? k := fun k data => by
    rw [files, SortedMap.find?_insertOrAssign, if_neg data]
  have queues : ∀ k o, k ≠ 0 → t'.Queues k o → t.Queues k o := fun k o data queues => by
    rw [Queues, others k data, call'] at queues
    rw [Queues, call]
    exact queues
  have covered : ∀ k o, k ≠ 0 → t.Queues k o → t'.Covered (log ++ out) k := fun k o data queued => by
    refine (announcing.pending n (by rw [call]; simp) k o data queued).imp (fun announced => announced.append out)
      fun lists => ⟨n, ?_, lists.append out⟩
    rw [files, SortedMap.find?_insertOrAssign, if_pos rfl]
  refine ⟨first, known, fun k o data inQueue => ?_, fun k o data queued => ?_, fun m member k o data queued => ?_,
    fun k o data member => ?_⟩
  · exact Or.inl (covered k o data (.of_files (by rw [← others k data]; exact inQueue)))
  · rw [entries, call']
    refine (announcing.table k o data (queues k o data queued)).imp (fun announced => announced.append out)
      (Or.imp_right fun adds => ?_)
    rw [call] at adds
    simpa using adds
  · rw [call'] at member
    exact (announcing.pending m (by rw [call]; exact List.mem_cons_of_mem _ member) k o data
      (queues k o data queued)).imp (fun announced => announced.append out) fun lists => lists.append out
  · rw [call'] at member
    exact Or.inr (Or.inr (covered k o data (Or.inr (by rw [call]; exact member))))

/-- The file of the call goes into the queue. -/
theorem Announcing.insert (announcing : t.Announcing log) {k o : Nat} {rest : List SendStep}
    (call : t.call = .insertFile k o :: rest) (short : rest = [.returns k o] ∨ rest = [.addEntry o, .returns k o])
    (files : t'.files = t.files.insert k o) (call' : t'.call = rest) (data : k ≠ 0)
    (entries : t'.fdt.fileEntries = t.fdt.fileEntries) (first : HandedFirst (log ++ out))
    (known : ∀ o table f, .built o table f ∈ log ++ out → ∃ g, t'.object? o = some g ∧ f.Later g) :
    t'.Announcing (log ++ out) := by
  have inserts : t.call.filterMap SendStep.inserts = [(k, o)] ∧ rest.filterMap SendStep.inserts = [] := by
    rw [call]
    rcases short with rfl | rfl <;> exact ⟨rfl, rfl⟩
  have adds : ∀ p, .addEntry p ∈ t.call ↔ .addEntry p ∈ rest := fun p => by rw [call]; simp
  have none : ∀ n, .storeFdt n ∉ t.call := fun n member => by
    rw [call] at member
    rcases short with rfl | rfl <;> simp at member
  have found : ∀ j p, t'.files.find? j = some p → t.files.find? j = some p ∨ (j, p) = (k, o) := fun j p stored => by
    rw [files, SortedMap.find?_insert] at stored
    split_ifs at stored with here
    · subst here
      cases before : t.files.find? j with
      | none =>
        rw [before] at stored
        exact Or.inr (by rw [← Option.some.inj stored]; rfl)
      | some q =>
        rw [before] at stored
        exact Or.inl (congrArg Option.some (Option.some.inj stored))
    · exact Or.inl stored
  have fdt : t'.files.find? 0 = t.files.find? 0 := by
    rw [files, SortedMap.find?_insert, if_neg (Ne.symm data)]
  have covered : ∀ j, t.Covered log j → t'.Covered (log ++ out) j := fun j covered =>
    covered.step fun p stored lists => Or.inr ⟨p, fdt.trans stored, lists.append out⟩
  have queues : ∀ j p, t'.Queues j p → t.Queues j p := fun j p queued => by
    rw [Queues, call', inserts.2] at queued
    rcases found j p (queued.resolve_right (by simp)) with old | new
    · exact .of_files old
    · exact Or.inr (by rw [inserts.1, new]; simp)
  refine ⟨first, known, fun j p some inQueue => ?_, fun j p some queued => ?_, fun m member => ?_,
    fun j p some member => ?_⟩
  · rcases found j p inQueue with old | new
    · rcases announcing.queue j p some old with before | waits
      · exact Or.inl (covered j before)
      · rcases waits with waits | ⟨n, toi, same⟩
        · exact Or.inr (Or.inl (call' ▸ (adds p).mp waits))
        · exact absurd (by rw [same]; simp) (none n)
    · obtain ⟨rfl, rfl⟩ := Prod.mk.inj new
      rcases announcing.inserting j p some (by rw [inserts.1]; simp) with ⟨n, pending⟩ | waits | before
      · exact absurd pending (none n)
      · exact Or.inr (Or.inl (call' ▸ (adds p).mp waits))
      · exact Or.inl (covered j before)
  · rw [entries, call', ← adds]
    exact (announcing.table j p some (queues j p queued)).imp_left fun announced => announced.append out
  · rw [call'] at member
    exact absurd (by rw [call]; exact List.mem_cons_of_mem _ member) (none m)
  · rw [call', inserts.2] at member
    cases member

/-- The second overload of `send` has added its file to the table and made the FDT file. -/
theorem Announcing.add (announcing : t.Announcing log) (sound : t.queue.Sound) {n toi o : Nat} {f fdtFile : File}
    {table : FileDeliveryTable} (call : t.call = [.addEntry o, .returns toi o]) (found : t.object? o = some f)
    (built : .built n table fdtFile ∈ out) (same : table.fileEntries = t.fdt.fileEntries ++ [f.entry])
    (files : t'.files = t.files) (call' : t'.call = [.storeFdt n, .markSent, .returns toi o])
    (entries : t'.fdt.fileEntries = t.fdt.fileEntries ++ [f.entry]) (first : HandedFirst (log ++ out))
    (known : ∀ o table f, .built o table f ∈ log ++ out → ∃ g, t'.object? o = some g ∧ f.Later g) :
    t'.Announcing (log ++ out) := by
  have listed : ∀ k p, k ≠ 0 → t'.Queues k p →
      FdtHanded (log ++ out) k ∨ k ∈ (t.fdt.fileEntries ++ [f.entry]).map FileEntry.toi := by
    intro k p data queued
    rw [Queues, files, call'] at queued
    have stored := queued.resolve_right (by simp [SendStep.inserts])
    rw [List.map_append, List.mem_append]
    rcases announcing.table k p data (.of_files stored) with announced | inTable | adds
    · exact Or.inl (announced.append out)
    · exact Or.inr (Or.inl inTable)
    · rw [call] at adds
      obtain rfl : p = o := by simpa using adds
      obtain ⟨g, object, isToi, _⟩ := sound.files k p stored
      obtain rfl : f = g := Option.some.inj (found.symm.trans object)
      exact Or.inr (Or.inr (by simp [isToi]))
  refine ⟨first, known, fun k p data inQueue => ?_, fun k p data queued => ?_, fun m member k p data queued => ?_,
    fun k p data member => ?_⟩
  · rw [files] at inQueue
    rcases announcing.queue k p data inQueue with covered | waits | ⟨_, _, other⟩
    · exact Or.inl (covered.step fun q stored lists => Or.inr ⟨q, files ▸ stored, lists.append out⟩)
    · rw [call] at waits
      obtain rfl : p = o := by simpa using waits
      exact Or.inr (Or.inr ⟨n, toi, call'⟩)
    · rw [call] at other
      cases other
  · rw [entries]
    exact (listed k p data queued).imp_right Or.inl
  · rw [call'] at member
    obtain rfl : m = n := by simpa using member
    exact (listed k p data queued).imp_right fun inTable =>
      ⟨table, fdtFile, List.mem_append_right log built, by rw [same]; exact inTable⟩
  · rw [call'] at member
    simp [SendStep.inserts] at member

/-- A part of the call that changes neither the queue nor the TOIs in the table. -/
theorem Announcing.pass (announcing : t.Announcing log) {passed : SendStep} {rest : List SendStep}
    (call : t.call = passed :: rest) (idle : passed.inserts = none ∧ passed.adds = none) (stays : ∀ n, passed ≠ .storeFdt n)
    (files : t'.files = t.files) (call' : t'.call = rest) (entries : t'.fdt.fileEntries = t.fdt.fileEntries)
    (first : HandedFirst (log ++ out))
    (known : ∀ o table f, .built o table f ∈ log ++ out → ∃ g, t'.object? o = some g ∧ f.Later g) :
    t'.Announcing (log ++ out) := by
  have inserts : t.call.filterMap SendStep.inserts = rest.filterMap SendStep.inserts := by
    rw [call, List.filterMap_cons_none idle.1]
  have adds : ∀ p, .addEntry p ∈ t.call → .addEntry p ∈ rest := fun p member => by
    rw [call] at member
    rcases List.mem_cons.mp member with same | later
    · rw [← same] at idle
      cases idle.2
    · exact later
  have queues : ∀ k o, t'.Queues k o → t.Queues k o := fun k o queued => by
    rw [Queues, files, call', ← inserts] at queued
    exact queued
  have covered : ∀ k, t.Covered log k → t'.Covered (log ++ out) k := fun k covered =>
    covered.step fun p stored lists => Or.inr ⟨p, files ▸ stored, lists.append out⟩
  refine ⟨first, known, fun k o data inQueue => ?_, fun k o data queued => ?_, fun m member k o data queued => ?_,
    fun k o data member => ?_⟩
  · rw [files] at inQueue
    rcases announcing.queue k o data inQueue with before | waits | ⟨n, toi, same⟩
    · exact Or.inl (covered k before)
    · exact Or.inr (Or.inl (call' ▸ adds o waits))
    · rw [call] at same
      exact absurd (List.cons.inj same).1 (stays n)
  · rw [entries, call']
    exact (announcing.table k o data (queues k o queued)).imp (fun announced => announced.append out)
      (Or.imp_right (adds o))
  · rw [call'] at member
    exact (announcing.pending m (by rw [call]; exact List.mem_cons_of_mem _ member) k o data
      (queues k o queued)).imp (fun announced => announced.append out) fun lists => lists.append out
  · rw [call', ← inserts] at member
    rw [call']
    rcases announcing.inserting k o data member with ⟨n, pending⟩ | waits | before
    · rw [call] at pending
      rcases List.mem_cons.mp pending with same | later
      · exact absurd same.symm (stays n)
      · exact Or.inl ⟨n, later⟩
    · exact Or.inr (Or.inl (adds o waits))
    · exact Or.inr (Or.inr (covered k before))

/-- The FDT file in the queue is served before all others. -/
theorem no_fdt_of_nextFile (sound : t.queue.Sound) {k o : Nat} (next : t.nextFile = some (k, o)) (data : k ≠ 0) :
    t.files.find? 0 = none := by
  by_contra some
  obtain ⟨p, stored⟩ := Option.ne_none_iff_exists'.mp some
  obtain ⟨f, object, _, incomplete⟩ := sound.files 0 p stored
  have waits : (t.object? p).any (fun f => !f.complete) = true := by
    rw [show t.object? p = Option.some f from object, Option.any_some, incomplete]
    rfl
  have member := SortedMap.mem_entries.mpr stored
  have sorted := t.files.sorted
  unfold nextFile at next
  cases entries : t.files.entries with
  | nil =>
    rw [entries] at member
    cases member
  | cons entry rest =>
    rw [entries] at member next sorted
    rcases List.mem_cons.mp member with rfl | later
    · simp only [List.find?_cons, waits] at next
      exact data (congrArg Prod.fst (Option.some.inj next)).symm
    · rw [List.map_cons, List.pairwise_cons] at sorted
      exact absurd (sorted.1 0 (List.mem_map_of_mem later)) (Nat.not_lt_zero _)

theorem Effect.built_seen (effect : Effect env t e t' out) {o : Nat} {table : FileDeliveryTable} {f : File}
    (member : .built o table f ∈ out) : t'.object? o = some f := by
  cases effect with
  | @finishedStored _ _ sent _ g _ fdtFile _ here found _ _ _ _ _ ends =>
    have last : o = t.objects.length ∧ f = fdtFile := by
      rcases ends with rfl | rfl <;> simp at member <;> exact ⟨member.1, member.2.2⟩
    obtain ⟨rfl, rfl⟩ := last
    simp [object?]
  | ticked =>
    simp only [List.mem_cons, TransmitterOutput.built.injEq, reduceCtorEq, List.not_mem_nil, or_false] at member
    obtain ⟨rfl, _, rfl⟩ := member
    simp [object?]
  | dataStarted =>
    obtain ⟨rfl, _, rfl⟩ := TransmitterOutput.built.inj (List.mem_singleton.mp member)
    simp [object?]
  | added =>
    obtain ⟨rfl, _, rfl⟩ := TransmitterOutput.built.inj (List.mem_singleton.mp member)
    simp [object?]
  | finished _ _ _ _ _ _ ends => rcases ends with rfl | rfl | ⟨what, rfl⟩ <;> simp at member
  | _ => simp at member

/-- A packet that is handed over is of a file that is announced. -/
theorem Announcing.handed (announcing : t.Announcing log) (sound : t.queue.Sound) (first : AnnouncesFirst env t e)
    (run : t.step env e = some (t', out)) {o toi : Nat} {fecOti : FecOti} {symbols : List EncodingSymbol}
    {packet datagram : List UInt8} (member : .handed o toi fecOti symbols packet datagram ∈ out) (data : toi ≠ 0) :
    FdtHanded log toi := by
  obtain ⟨s, k, f, n, is, hands, object, rfl, _⟩ := ((step_effect sound run).traffic sound).handed_seen member
  have next : t.nextFile = some (k, o) := by
    rcases is with ⟨rfl, _⟩ | ⟨rfl, _⟩ <;> exact hands.next
  have serves : t.Serves e o := by
    refine ⟨?_, k, f, next, object, fun none => hands.some (by rw [none, List.take_nil])⟩
    rcases is with ⟨rfl, rfl⟩ | ⟨rfl, rfl⟩
    · exact Or.inl ⟨rfl, hands.active⟩
    · refine Or.inr ⟨rfl, ?_⟩
      by_contra active
      simp only [step, perform, activate, if_pos (show t.active = true by simpa using active)] at run
      obtain ⟨_, rfl⟩ := Prod.mk.inj (Option.some.inj run)
      cases member
  obtain ⟨stored, _⟩ := nextFile_spec next
  obtain ⟨g, same, isToi, _⟩ := sound.files k o stored
  obtain rfl : f = g := Option.some.inj (object.symm.trans same)
  subst isToi
  rcases announcing.queue _ o data stored with (announced | ⟨p, fdt, _⟩) | unannounced
  · exact announced
  · rw [no_fdt_of_nextFile sound next data] at fdt
    cases fdt
  · exact absurd unannounced (first.serves o serves)

/-- A file with a completed send was announced. -/
theorem Announcing.sent (announcing : t.Announcing log) (recorded : t.Recorded log) {sent : InFlight} {f : File}
    (member : sent ∈ t.socket) (some : sent.symbols ≠ []) (found : t.object? sent.object = Option.some f)
    (data : f.entry.toi ≠ 0) : FdtHanded log f.entry.toi := by
  obtain ⟨symbol, inSent⟩ := List.exists_mem_of_ne_nil _ some
  obtain ⟨toi, fecOti, symbols, packet, datagram, handed, _⟩ := recorded.flight sent member symbol inSent
  obtain ⟨g, same, rfl, _⟩ := recorded.handed _ _ _ _ _ _ handed
  obtain rfl : f = g := Option.some.inj (found.symm.trans same)
  exact announcing.first.announced handed data

/-- The FDT file whose last send completes has been handed over symbol by symbol. -/
theorem Announcing.sentFdt (announcing : t.Announcing log) (recorded : t.Recorded log) {index k : Nat} {sent : InFlight}
    {f g : File} (here : t.socket[index]? = some sent) (found : t.object? sent.object = some f)
    (marked : File.Marked env f g (sent.symbols.map EncodingSymbol.key)) (complete : g.complete = true)
    (lists : FdtLists log sent.object k) : FdtHanded log k := by
  obtain ⟨table, fdtFile, built, listed⟩ := lists
  refine ⟨sent.object, table, fdtFile, built, listed, fun key held => ?_⟩
  obtain ⟨h, same, later⟩ := announcing.built _ _ _ built
  obtain rfl : f = h := Option.some.inj (found.symm.trans same)
  have holds : g.Holds key := (marked.holds key).mpr (later.holds_iff.mpr held)
  rcases marked.done key (marked.sound.done_of_complete complete holds) with done | now
  · exact recorded.queued _ f key found (Or.inr done)
  · obtain ⟨symbol, inSent, rfl⟩ := List.mem_map.mp now
    exact recorded.flight sent (List.mem_of_getElem? here) symbol inSent

theorem continueSend_not_threw {now o : Nat} {rest : List SendStep} {f : File} (call : t.call = .addEntry o :: rest)
    (found : t.object? o = some f) (fits : FdtFits env (t.fdt.add f.entry) now)
    (run : t.step env (.continueSend now) = some (t', out)) (what : Thrown) : .threw what ∉ out := by
  have performed : t.perform env (.continueSend now) =
      some (startSendFdt env { t with fdt := t.fdt.add f.entry } now rest) := by
    simp only [perform, continueSend, call, found]
  exact startSendFdt_not_threw (t := { t with fdt := t.fdt.add f.entry }) fits performed run what

theorem Announcing.step (announcing : t.Announcing log) (sound : t.queue.Sound) (recorded : t.Recorded log)
    (owned : t.SendsOwned Set.univ) (shape : CallShape t.call)
    (meets : AnnouncesFirst env t e) (run : t.step env e = some (t', out)) : t'.Announcing (log ++ out) := by
  have effect := step_effect sound run
  have later := fun o f (found : t.object? o = some f) => (effect.traffic sound).later found
  have first := announcing.first.step fun o toi fecOti symbols packet datagram member data =>
    announcing.handed sound meets run member data
  have known := built_step announcing.built later fun o table f member => effect.built_seen member
  cases effect with
  | settings _ queue fdt =>
    exact announcing.frame (congrArg SendQueue.files queue) (congrArg SendQueue.call queue)
      (fun k listed => by rw [fdt]; exact listed) first known
  | rejected _ queue fdt =>
    exact announcing.frame (congrArg SendQueue.files queue) (congrArg SendQueue.call queue)
      (fun k listed => by rw [fdt]; exact listed) first known
  | hands is =>
    rcases is with ⟨rfl, _⟩ | ⟨rfl, _⟩ <;> exact announcing.frame rfl rfl (fun _ listed => listed) first known
  | failed => exact announcing.frame rfl rfl (fun _ listed => listed) first known
  | marked => exact announcing.frame rfl rfl (fun _ listed => listed) first known
  | tickFailed same =>
    exact announcing.frame rfl rfl (fun k listed => by rw [same.fileEntries]; exact listed) first known
  | @finishedFdt index now sent f g here found marked complete fdt =>
    refine announcing.finishFdt (fun o k stored lists => ?_) (fun k data => ?_) rfl rfl first known
    · have listed := owned.listed here found (Set.mem_univ _) marked complete
      rw [fdt, stored] at listed
      obtain rfl := Option.some.inj listed
      exact (announcing.sentFdt recorded here found marked complete lists).append _
    · exact (SortedMap.find?_erase _ _ _).trans (if_neg data)
  | @finished index now sent f g table seen here found marked complete data same =>
    have member := List.mem_of_getElem? here
    exact announcing.finish (announcing.sent recorded member (owned sent member).1 found data) data rfl rfl
      same.fileEntries first known
  | @finishedStored index now sent f g table fdtFile seen here found marked complete data same =>
    have member := List.mem_of_getElem? here
    set s : Transmitter := { t with
      objects := t.objects.set sent.object g
      socket := t.socket.eraseIdx index
      files := t.files.erase f.entry.toi
      fdt := t.fdt.remove f.entry.toi }
    set done : List TransmitterOutput := [.marked sent.object sent.symbols,
      .erased sent.object f.entry.toi (t.files.find? f.entry.toi)]
    have replaced : ∀ o h, t.object? o = some h → ∃ h', s.object? o = some h' ∧ h.Later h' := by
      intro o h there
      by_cases here : o = sent.object
      · rw [here, found] at there
        obtain rfl := Option.some.inj there
        exact ⟨g, (getElem?_set found g o).trans (if_pos here), marked.later⟩
      · exact ⟨h, (getElem?_set found g o).trans ((if_neg here).trans there), .refl h⟩
    have mid : s.Announcing (log ++ done) :=
      announcing.finish (announcing.sent recorded member (owned sent member).1 found data) data rfl rfl rfl
        (announcing.first.step (by simp [done])) (built_step announcing.built replaced (by simp [done]))
    rw [show log ++ (_ :: _ :: _ :: _ :: seen) = (log ++ done) ++ (.built t.objects.length table fdtFile ::
      .stored t.objects.length :: seen) by simp [done]] at first known ⊢
    exact mid.store same.fileEntries List.mem_cons_self (fun k => SortedMap.find?_insertOrAssign _ _ _ _) rfl
      same.fileEntries first known
  | ticked same =>
    exact announcing.store same.fileEntries List.mem_cons_self (fun k => SortedMap.find?_insertOrAssign _ _ _ _) rfl
      same.fileEntries first known
  | dataFailed idle made same =>
    refine announcing.frame rfl rfl (fun k listed => ?_) first known
    rw [same.fileEntries, FileDeliveryTable.add_fileEntries, List.map_append]
    exact List.mem_append_left _ listed
  | dataStarted idle made same =>
    obtain ⟨_, _, _, _, _, entry⟩ := File.ofData_new made
    exact announcing.begin idle (by rw [entry]) List.mem_cons_self same.fileEntries rfl rfl same.fileEntries first known
  | described idle => exact announcing.describe idle rfl rfl rfl first known
  | storedFdt call => exact announcing.storePending call rfl rfl rfl first known
  | markedSent call => exact announcing.pass call ⟨rfl, rfl⟩ (by simp) rfl rfl rfl first known
  | @inserted now toi o rest call =>
    obtain ⟨data, short⟩ := (call ▸ shape : CallShape _).insertFile
    exact announcing.insert call short rfl rfl data rfl first known
  | @addFailed now o rest f table what call found =>
    exact absurd (List.mem_singleton_self _) (continueSend_not_threw call found
      (meets.fits now o rest f rfl call found) run what)
  | @added now o rest f table fdtFile call found same =>
    obtain ⟨toi, _, rfl⟩ := (call ▸ shape : CallShape _).addEntry
    exact announcing.add sound call found List.mem_cons_self same.fileEntries rfl rfl same.fileEntries first known
  | returned call => exact announcing.pass call ⟨rfl, rfl⟩ (by simp) rfl rfl rfl first known

theorem announcing_create (tsi mtu : Nat) (endpoint : Endpoint) (sourceAddress : Option Nat)
    (tunnelEndpoint : Option Endpoint) (tunnelLocalAddress : Nat) (fdtNamespace : FdtNamespace) (active : Bool) :
    (create tsi mtu endpoint sourceAddress tunnelEndpoint tunnelLocalAddress fdtNamespace active).Announcing [] := by
  constructor <;> simp [create, Queues, HandedFirst]

theorem reach_announcing (reach : (transmitter env).Reach (fun t _ e => AnnouncesFirst env t e) t log) :
    t.Announcing log := by
  have invariant : (t.queue.Sound ∧ t.toi ≠ 0 ∧ CallShape t.call) ∧ (t.SendsOwned Set.univ ∧ t.Recorded log) ∧
      t.Announcing log := by
    refine reach.invariant (I := fun t log => (t.queue.Sound ∧ t.toi ≠ 0 ∧ CallShape t.call) ∧
      (t.SendsOwned Set.univ ∧ t.Recorded log) ∧ t.Announcing log) ?_ ?_
    · rintro s ⟨_, _, _, _, _, _, _, _, _, rfl⟩
      exact ⟨⟨sound_create .., by simp [create], .nil⟩, ⟨by simp [SendsOwned, create], recorded_start rfl rfl⟩,
        announcing_create ..⟩
    · rintro s log e s' out ⟨⟨sound, counter, shape⟩, ⟨owned, recorded⟩, announcing⟩ meets run
      have effect := step_effect sound run
      exact ⟨⟨effect.sound sound, step_toi_ne_zero counter run, effect.callShape counter shape⟩,
        ⟨owned.step sound effect fun _ new stored => meets.waits (storesFdt_of_stored sound run stored),
          recorded.step sound effect⟩, announcing.step sound recorded owned shape meets run⟩
  exact invariant.2.2

/-- When nothing goes wrong with the FDT that lists a file until it is in the queue,
and packets have room, packets have carried the FDT before the first one of the file. -/
theorem fdt_first (reach : (transmitter env).Reach (fun t _ e => AnnouncesFirst env t e) t log) : FdtFirst log := by
  obtain ⟨_, all⟩ := reach_allCarried (fun _ _ _ meets => meets.room) reach
  have announcing := reach_announcing reach
  intro before after o toi fecOti symbols packet datagram split data
  obtain ⟨p, table, f, built, listed, handed⟩ := announcing.first before after o toi fecOti symbols packet datagram
    split data
  refine ⟨p, table, f, built, listed, fun key held => ?_⟩
  obtain ⟨toi', fecOti', symbols', packet', datagram', member, inSymbols⟩ := handed key held
  have inLog : ∀ output ∈ before, output ∈ log := fun _ early => split ▸ List.mem_append_left _ early
  obtain ⟨g, found, rfl, sent, carried⟩ := all _ _ _ _ _ _ (inLog _ member)
  obtain ⟨h, same, later⟩ := announcing.built p table f (inLog _ built)
  obtain rfl : g = h := Option.some.inj (found.symm.trans same)
  obtain ⟨symbol, inList, rfl⟩ := List.mem_map.mp inSymbols
  exact ⟨toi', symbols', packet', datagram', later.fecOti ▸ member, sent, later.carriedBy ▸ carried symbol inList⟩

end Transmitter

/-- Between calls, or in a call for data. -/
def servesAnnounced (t : Transmitter) (e : TransmitterEvent) : Bool :=
  erasesSafely t e && match e with
    | .sendDescription _ => false
    | .continueSend _ => t.call.all fun step => step.adds = none
    | .sendNextPacket => t.call = []
    | .activate => false
    | _ => true

theorem servesAnnounced_meets {t : Transmitter} {e : TransmitterEvent} (meets : servesAnnounced t e = true) :
    t.AnnouncesFirst (sampleEnv [] []) e := by
  obtain ⟨safe, rest⟩ := Bool.and_eq_true_iff.mp meets
  obtain ⟨room, waits⟩ := erasesSafely_meets safe
  refine ⟨room, waits, fun o serves unannounced => ?_, fun now o later f is call => ?_⟩
  · obtain ⟨⟨rfl, _⟩ | ⟨rfl, _⟩, _⟩ := serves
    · have idle : t.call = [] := of_decide_eq_true rest
      rw [Transmitter.Unannounced, idle] at unannounced
      rcases unannounced with adds | ⟨_, _, same⟩
      · cases adds
      · cases same
    · cases rest
  · subst is
    simp [call, SendStep.adds] at rest

def TransmitterOutput.handsFile : TransmitterOutput → Bool
  | .handed _ toi _ _ _ _ => toi ≠ 0
  | _ => false

theorem fdt_first_data : ∃ t log, (transmitter (sampleEnv [] [])).Reach
      (fun t _ e => t.AnnouncesFirst (sampleEnv [] []) e) t log ∧
    log.any TransmitterOutput.handsFile = true ∧ FdtFirst log := by
  obtain ⟨t, log, reach, checked⟩ := Machine.exists_reach (M := transmitter (sampleEnv [] []))
    (fun t _ e => t.AnnouncesFirst (sampleEnv [] []) e) servesAnnounced (session 1500)
    (sendEvents [97] ++ [.sendNextPacket, .socketCompleted 0 true 0, .sendNextPacket])
    (fun r => r.2.any TransmitterOutput.handsFile)
    (fun _ _ _ => servesAnnounced_meets) ⟨_, _, _, _, _, _, _, _, by decide, rfl⟩ (by rw [sampleEnv_eq]; decide +kernel)
  exact ⟨t, log, reach, checked, Transmitter.fdt_first reach⟩

def TransmitterOutput.isBuilt : TransmitterOutput → Bool
  | .built _ _ _ => true
  | _ => false

/-- The second overload of `send` puts the file into the queue before its FDT, and
the event loop sends it right then. -/
theorem not_fdt_first : ¬ ∀ env t log, (transmitter env).Reach Machine.always t log → HandedFirst log := by
  intro claim
  obtain ⟨t, log, reach, checked⟩ := Machine.exists_reach (M := transmitter (sampleEnv [] []))
    Machine.always (fun _ _ => true) (session 1500) [.sendDescription resent, .continueSend 0, .sendNextPacket]
    (fun r => r.2.any TransmitterOutput.handsFile && !r.2.any TransmitterOutput.isBuilt)
    (fun _ _ _ _ => trivial) ⟨_, _, _, _, _, _, _, _, by decide, rfl⟩ (by rw [sampleEnv_eq]; decide +kernel)
  simp only [Bool.and_eq_true, Bool.not_eq_true'] at checked
  obtain ⟨output, member, hands⟩ := List.any_eq_true.mp checked.1
  cases output with
  | handed o toi fecOti symbols packet datagram =>
    obtain ⟨before, after, rfl⟩ := List.append_of_mem member
    obtain ⟨p, table, f, built, _⟩ := claim _ t _ reach before after _ _ _ _ _ _ rfl
      (by simpa [TransmitterOutput.handsFile] using hands)
    rw [List.any_eq_false] at checked
    exact checked.2 _ (List.mem_append_left _ built) rfl
  | _ => cases hands

end Libflute

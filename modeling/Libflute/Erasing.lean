import Libflute.Reporting

/-! Which files leave the queue of the transmitter. -/

namespace Libflute

/-- A symbol of the file `o` is in a send that the socket has not completed yet. -/
def InFlight.Carries (sent : InFlight) (o : Nat) (key : Nat × Nat) : Prop :=
  sent.object = o ∧ key ∈ sent.symbols.map EncodingSymbol.key

namespace Transmitter
variable {env : Env} {t t' : Transmitter} {e : TransmitterEvent} {log out : List TransmitterOutput}

/-- The outstanding sends are enough to complete the FDT file in the queue. -/
def FdtFinishing (t : Transmitter) : Prop :=
  ∃ o f, t.files.find? 0 = some o ∧ t.object? o = some f ∧
    ∀ key, f.Holds key → f.Done key ∨ ∃ sent ∈ t.socket, sent.Carries o key

/-- The steps in which `send_fdt` puts an FDT file into the queue. -/
def StoresFdt (t : Transmitter) : TransmitterEvent → Prop
  | .fdtSendTick _ => t.active = true ∧ t.fdt.fileEntries ≠ []
  | .continueSend _ => ∃ o rest, t.call = .storeFdt o :: rest
  | .socketCompleted index true _ => ∃ sent f, t.socket[index]? = some sent ∧ t.object? sent.object = some f ∧
      f.entry.toi ≠ 0 ∧ (t.fdt.remove f.entry.toi).fileEntries ≠ [] ∧
      ∀ key, f.Holds key → f.Done key ∨ key ∈ sent.symbols.map EncodingSymbol.key
  | _ => False

/-- A step takes a file out of the queue only when packets have carried all of its
symbols, or a new FDT file replaces it; a completed file takes out only itself. -/
structure ErasesOnlyCompleted (t t' : Transmitter) (log out : List TransmitterOutput) : Prop where
  leaves : ∀ k o, t.files.find? k = some o → t'.files.find? k = some o ∨
    (∃ f, t'.object? o = some f ∧ f.complete = true ∧ ∀ key, f.Holds key → CarriedIn log o f key) ∨
    k = 0 ∧ ∃ new, .stored new ∈ out
  erased : ∀ completed toi other, .erased completed toi (some other) ∈ out → other = completed

/-- A symbol of the file `o` is not complete, and no outstanding send will complete it. -/
def Stalled (t : Transmitter) (o : Nat) (f : File) : Prop :=
  ∃ key, f.Holds key ∧ ¬ f.Done key ∧ ∀ sent ∈ t.socket, ¬ sent.Carries o key

/-- An outstanding send is of the file in the queue under its TOI, if that is one
of those looked at, or of an FDT file that will not be complete any more. -/
def SendsOwned (tois : Set Nat) (t : Transmitter) : Prop :=
  ∀ sent ∈ t.socket, sent.symbols ≠ [] ∧ ∀ f, t.object? sent.object = some f → f.entry.toi ∈ tois →
    t.files.find? f.entry.toi = some sent.object ∨ f.entry.toi = 0 ∧ t.Stalled sent.object f

variable {tois : Set Nat}

theorem stalled_of_not_finishing {o : Nat} {f : File} (waits : ¬ t.FdtFinishing) (listed : t.files.find? 0 = some o)
    (found : t.object? o = some f) : t.Stalled o f := by
  by_contra moves
  refine waits ⟨o, f, listed, found, fun key held => ?_⟩
  by_contra open'
  rw [not_or, not_exists] at open'
  exact moves ⟨key, held, open'.1, fun sent member carries => open'.2 sent ⟨member, carries⟩⟩

/-- A file that a completed send makes complete is the one in the queue. -/
theorem SendsOwned.listed (owned : t.SendsOwned tois) {index : Nat} {sent : InFlight} {f g : File}
    (here : t.socket[index]? = some sent) (found : t.object? sent.object = some f) (looked : f.entry.toi ∈ tois)
    (marked : File.Marked env f g (sent.symbols.map EncodingSymbol.key)) (complete : g.complete = true) :
    t.files.find? f.entry.toi = some sent.object := by
  have member := List.mem_of_getElem? here
  rcases (owned sent member).2 f found looked with listed | ⟨_, key, held, undone, idle⟩
  · exact listed
  · have done := marked.sound.done_of_complete complete ((marked.holds key).mpr held)
    rcases marked.done key done with before | now
    · exact absurd before undone
    · exact absurd ⟨rfl, now⟩ (idle sent member)

/-- What leaves the queue when a completed file is erased under its TOI. -/
theorem SendsOwned.leaves_erase (owned : t.SendsOwned tois) {index : Nat} {sent : InFlight} {f g : File}
    (here : t.socket[index]? = some sent) (found : t.object? sent.object = some f)
    (marked : File.Marked env f g (sent.symbols.map EncodingSymbol.key)) (complete : g.complete = true)
    {k o : Nat} (looked : k ∈ tois) (stored : t.files.find? k = some o) :
    (t.files.erase f.entry.toi).find? k = some o ∨
      .erased o k (some o) = TransmitterOutput.erased sent.object f.entry.toi (t.files.find? f.entry.toi) ∧
        ∃ h, (t.objects.set sent.object g)[o]? = some h ∧ h.complete = true := by
  by_cases same : k = f.entry.toi
  · have listed := owned.listed here found (same ▸ looked) marked complete
    rw [same, listed] at stored
    obtain rfl := Option.some.inj stored
    exact Or.inr ⟨by rw [same, listed], g, (getElem?_set found g sent.object).trans (if_pos rfl), complete⟩
  · exact Or.inl (by rw [SortedMap.find?_erase, if_neg same]; exact stored)

theorem Effect.leaves (effect : Effect env t e t' out) (owned : t.SendsOwned tois) {k o : Nat} (looked : k ∈ tois)
    (stored : t.files.find? k = some o) : t'.files.find? k = some o ∨
      (.erased o k (some o) ∈ out ∧ ∃ f, t'.object? o = some f ∧ f.complete = true) ∨
      k = 0 ∧ ∃ new, .stored new ∈ out := by
  cases effect with
  | settings _ queue => exact Or.inl ((congrArg (fun q => q.files.find? k) queue).trans stored)
  | rejected _ queue => exact Or.inl ((congrArg (fun q => q.files.find? k) queue).trans stored)
  | hands is => rcases is with ⟨rfl, _⟩ | ⟨rfl, _⟩ <;> exact Or.inl stored
  | @finishedFdt index now sent f g here found marked complete fdt =>
    have left := owned.leaves_erase here found marked complete looked stored
    rw [fdt] at left
    exact left.imp_right fun ⟨is, done⟩ => Or.inl ⟨by rw [is]; simp, done⟩
  | finished here found marked complete =>
    exact (owned.leaves_erase here found marked complete looked stored).imp_right fun ⟨is, done⟩ =>
      Or.inl ⟨by rw [is]; simp, done⟩
  | @finishedStored index now sent f g table fdtFile seen here found marked complete =>
    by_cases fdt : k = 0
    · exact Or.inr (Or.inr ⟨fdt, t.objects.length, by simp⟩)
    · rcases owned.leaves_erase here found marked complete looked stored with stays | ⟨is, h, object, done⟩
      · exact Or.inl (by rw [SortedMap.find?_insertOrAssign, if_neg fdt]; exact stays)
      · exact Or.inr (Or.inl ⟨by rw [is]; simp, h, SendQueue.getElem?_append_old (q := { t.queue with
          objects := t.objects.set sent.object g }) object, done⟩)
  | ticked =>
    by_cases fdt : k = 0
    · exact Or.inr (Or.inr ⟨fdt, t.objects.length, by simp⟩)
    · exact Or.inl (by rw [SortedMap.find?_insertOrAssign, if_neg fdt]; exact stored)
  | @storedFdt now new rest call =>
    by_cases fdt : k = 0
    · exact Or.inr (Or.inr ⟨fdt, new, by simp⟩)
    · exact Or.inl (by rw [SortedMap.find?_insertOrAssign, if_neg fdt]; exact stored)
  | inserted call =>
    refine Or.inl ?_
    rw [SortedMap.find?_insert]
    split_ifs with here
    · rw [← here, stored, Option.getD_some]
    · exact stored
  | _ => exact Or.inl stored

theorem Effect.erased (effect : Effect env t e t' out) (owned : t.SendsOwned tois) {completed toi other : Nat}
    (looked : toi ∈ tois) (member : .erased completed toi (some other) ∈ out) : other = completed := by
  cases effect with
  | @finishedFdt index now sent f g here found marked complete fdt =>
    simp only [List.mem_cons, reduceCtorEq, List.not_mem_nil, or_false, false_or, TransmitterOutput.erased.injEq]
      at member
    obtain ⟨rfl, rfl, same⟩ := member
    rw [← fdt, owned.listed here found (fdt ▸ looked) marked complete] at same
    exact Option.some.inj same
  | @finished index now sent f g table seen here found marked complete data _ ends =>
    have last : completed = sent.object ∧ toi = f.entry.toi ∧ some other = t.files.find? f.entry.toi := by
      rcases ends with rfl | rfl | ⟨what, rfl⟩ <;> simpa using member
    obtain ⟨rfl, rfl, same⟩ := last
    rw [owned.listed here found looked marked complete] at same
    exact Option.some.inj same
  | @finishedStored index now sent f g table fdtFile seen here found marked complete data _ _ ends =>
    have last : completed = sent.object ∧ toi = f.entry.toi ∧ some other = t.files.find? f.entry.toi := by
      rcases ends with rfl | rfl <;> simpa using member
    obtain ⟨rfl, rfl, same⟩ := last
    rw [owned.listed here found looked marked complete] at same
    exact Option.some.inj same
  | _ => simp at member

/-- What an outstanding send's file was before a step. -/
theorem Traffic.object_before (traffic : Traffic env t e t' out) (sound : t.queue.Sound) {sent : InFlight} {g : File}
    (member : sent ∈ t.socket) (found : t'.object? sent.object = some g) :
    ∃ f, t.object? sent.object = some f ∧ g.entry = f.entry ∧ (∀ key, g.Holds key ↔ f.Holds key) ∧
      ∀ key, g.Done key → f.Done key ∨ ∃ sent' ∈ t.socket, sent'.Carries sent.object key := by
  obtain ⟨before, there, _⟩ := sound.flight sent member
  cases traffic.object found with
  | same same => exact ⟨g, same, rfl, fun _ => Iff.rfl, fun _ done => Or.inl done⟩
  | made none =>
    change t.object? sent.object = some before at there
    rw [none] at there
    cases there
  | taken same taken => exact ⟨_, same, taken.entry, taken.holds, fun key done => Or.inl ((taken.done key).mp done)⟩
  | marked here is same marked =>
    exact ⟨_, same, marked.entry, marked.holds, fun key done =>
      (marked.done key done).imp_right fun inSent => ⟨_, List.mem_of_getElem? here, is, inSent⟩⟩

theorem Stalled.step (traffic : Traffic env t e t' out) (sound : t.queue.Sound) {sent : InFlight} {f g : File}
    (member : sent ∈ t.socket) (found : t.object? sent.object = some f) (later : t'.object? sent.object = some g)
    (stalled : t.Stalled sent.object f)
    (unserved : ∀ toi fecOti symbols packet datagram,
      out ≠ [.handed sent.object toi fecOti symbols packet datagram]) : t'.Stalled sent.object g := by
  obtain ⟨key, held, undone, idle⟩ := stalled
  obtain ⟨before, same, _, holds, done⟩ := traffic.object_before sound member later
  rw [found] at same
  obtain rfl := Option.some.inj same
  refine ⟨key, (holds key).mpr held, fun now => ?_, fun other inSocket carries => ?_⟩
  · rcases done key now with already | ⟨other, inSocket, carries⟩
    · exact undone already
    · exact idle other inSocket carries
  · rcases traffic.socket inSocket with old | ⟨h, packet, _, rfl⟩
    · exact idle other old carries
    · exact unserved _ _ _ _ _ (by rw [carries.1])

/-- A file whose packet is handed over is in the queue under its TOI. -/
theorem Traffic.handed_listed (traffic : Traffic env t e t' out) (sound : t.queue.Sound) {o toi : Nat} {f : File}
    {fecOti : FecOti} {symbols : List EncodingSymbol} {packet datagram : List UInt8}
    (member : .handed o toi fecOti symbols packet datagram ∈ out) (found : t.object? o = some f) :
    t.files.find? f.entry.toi = some o ∧ symbols ≠ [] := by
  obtain ⟨s, k, g, n, is, hands, object, _, _, rfl, _⟩ := traffic.handed_seen member
  have next : t.nextFile = some (k, o) := by
    rcases is with ⟨rfl, _⟩ | ⟨rfl, _⟩ <;> exact hands.next
  obtain ⟨listed, _⟩ := nextFile_spec next
  obtain ⟨h, same, toi, _⟩ := sound.files k o listed
  obtain rfl : f = h := Option.some.inj (found.symm.trans same)
  refine ⟨toi ▸ listed, fun none => hands.some (List.map_eq_nil_iff.mp none)⟩

/-- A file with a symbol in flight is not complete. -/
theorem incomplete_of_sent (sound : t.queue.Sound) {sent : InFlight} {f : File} (member : sent ∈ t.socket)
    (some : sent.symbols ≠ []) (found : t.object? sent.object = Option.some f) : f.complete = false := by
  obtain ⟨now, there, queued⟩ := sound.flight sent member
  obtain rfl : f = now := Option.some.inj (found.symm.trans there)
  by_contra complete
  obtain ⟨symbol, inSent⟩ := List.exists_mem_of_ne_nil _ some
  have fileSound := (sound.objects _ f found).1
  exact fileSound.not_queued_of_done (fileSound.done_of_complete (by simpa using complete)
    (queued symbol inSent).holds) (queued symbol inSent)

/-- What a file with a symbol in flight can leave the queue for. -/
theorem Effect.stays_or_stored (effect : Effect env t e t' out) (sound : t.queue.Sound) (owned : t.SendsOwned tois)
    {sent : InFlight} {g : File} {k : Nat} (member : sent ∈ t'.socket) (some : sent.symbols ≠ [])
    (later : t'.object? sent.object = Option.some g) (looked : k ∈ tois)
    (listed : t.files.find? k = Option.some sent.object) :
    t'.files.find? k = Option.some sent.object ∨ k = 0 ∧ ∃ new, .stored new ∈ out := by
  rcases effect.leaves owned looked listed with stays | ⟨_, h, same, complete⟩ | stored
  · exact Or.inl stays
  · obtain rfl : g = h := Option.some.inj (later.symm.trans same)
    rw [incomplete_of_sent (effect.sound sound) member some later] at complete
    cases complete
  · exact Or.inr stored

theorem SendsOwned.step (owned : t.SendsOwned tois) (sound : t.queue.Sound) (effect : Effect env t e t' out)
    (waits : 0 ∈ tois → ∀ new, .stored new ∈ out → ¬ t.FdtFinishing) : t'.SendsOwned tois := by
  have traffic := effect.traffic sound
  intro sent member
  rcases traffic.socket member with old | ⟨f, packet, found, rfl⟩
  · obtain ⟨some, either⟩ := owned sent old
    refine ⟨some, fun g later looked => ?_⟩
    obtain ⟨f, found, entry, _⟩ := traffic.object_before sound old later
    rw [entry] at looked ⊢
    have stays := fun listed => effect.stays_or_stored sound owned member some later looked listed
    rcases either f found looked with listed | ⟨fdt, stalled⟩
    · refine (stays listed).imp_right fun ⟨fdt, new, stored⟩ => ⟨fdt, ?_⟩
      have waiting := waits (fdt ▸ looked) new stored
      refine (stalled_of_not_finishing waiting (fdt ▸ listed) found).step traffic sound old found later ?_
      rintro toi fecOti symbols packet datagram rfl
      simp at stored
    · by_cases served : ∃ toi fecOti symbols packet datagram,
          out = [.handed sent.object toi fecOti symbols packet datagram]
      · obtain ⟨toi, fecOti, symbols, packet, datagram, rfl⟩ := served
        refine (stays (traffic.handed_listed sound (List.mem_singleton_self _) found).1).imp_right ?_
        rintro ⟨_, new, stored⟩
        simp at stored
      · exact Or.inr ⟨fdt, stalled.step traffic sound old found later
          fun _ _ _ _ _ same => served ⟨_, _, _, _, _, same⟩⟩
  · obtain ⟨listed, some⟩ := traffic.handed_listed sound (List.mem_singleton_self _) found
    refine ⟨some, fun g later looked => Or.inl ?_⟩
    obtain ⟨h, same, isLater⟩ := traffic.later found
    obtain rfl : g = h := Option.some.inj (later.symm.trans same)
    rw [isLater.entry] at looked ⊢
    rcases effect.stays_or_stored sound owned member some later looked listed with stays | ⟨_, new, stored⟩
    · exact stays
    · simp at stored

theorem fdtSendTick_stores {now new : Nat} (run : t.step env (.fdtSendTick now) = some (t', out))
    (stored : .stored new ∈ out) : t.active = true ∧ t.fdt.fileEntries ≠ [] := by
  by_cases active : t.active = true
  · refine ⟨active, fun none => ?_⟩
    have performed : t.perform env (.fdtSendTick now) = some (t.sendFdt env now) := by rw [perform, if_pos active]
    rcases sendFdt_cases env t now with ⟨_, result⟩ | ⟨_, some, _⟩
    · rw [result] at performed
      rcases step_ok performed run with ⟨_, _, rfl⟩ | ⟨what, ending, _⟩
      · cases stored
      · cases ending
    · exact some none
  · have performed : t.perform env (.fdtSendTick now) = some { state := t, ending := .ok () } := by
      rw [perform, if_neg active]
    rcases step_ok performed run with ⟨_, _, rfl⟩ | ⟨what, ending, _⟩
    · cases stored
    · cases ending

theorem socketCompleted_stores (sound : t.queue.Sound) {index now new : Nat} {ok : Bool}
    (run : t.step env (.socketCompleted index ok now) = some (t', out)) (stored : .stored new ∈ out) :
    t.StoresFdt (.socketCompleted index ok now) := by
  obtain ⟨r, performed⟩ : ∃ r, t.socketCompleted env index ok now = some r := by
    cases result : t.socketCompleted env index ok now with
    | none => simp [step, perform, result] at run
    | some r => exact ⟨r, rfl⟩
  have fires : .stored new ∈ r.seen := by
    have result : t.perform env (.socketCompleted index ok now) = some r := performed
    rcases step_ok result run with ⟨_, _, rfl⟩ | ⟨what, _, _, rfl⟩
    · exact stored
    · simpa using stored
  obtain ⟨sent, here, ⟨_, rfl⟩ | ⟨rfl, f, g, found, marked, ⟨_, rfl⟩ | ⟨complete, rfl⟩⟩⟩ :=
    socketCompleted_cases sound performed
  · cases fires
  · simp at fires
  · refine ⟨sent, f, here, found, ?_⟩
    have all : ∀ key, f.Holds key → f.Done key ∨ key ∈ sent.symbols.map EncodingSymbol.key := fun key held =>
      marked.done key (marked.sound.done_of_complete complete ((marked.holds key).mpr held))
    set after : Transmitter := { t with
      objects := t.objects.set sent.object g
      socket := t.socket.eraseIdx index }
    rcases fileTransmitted_cases env after sent.object f.entry.toi now with
      ⟨fdt, result⟩ | ⟨data, ⟨_, result⟩ | ⟨table, some, _⟩⟩
    · rw [result] at fires
      simp at fires
    · rw [result] at fires
      simp only [List.mem_cons, reduceCtorEq, false_or] at fires
      split_ifs at fires <;> simp at fires
    · exact ⟨data, some, all⟩

/-- Where `send_fdt` puts a file into the queue. -/
theorem storesFdt_of_stored (sound : t.queue.Sound) (run : t.step env e = some (t', out)) {new : Nat}
    (stored : .stored new ∈ out) : t.StoresFdt e := by
  cases step_effect sound run with
  | finishedStored => exact socketCompleted_stores sound run stored
  | ticked => exact fdtSendTick_stores run stored
  | storedFdt call => exact ⟨_, _, call⟩
  | finished _ _ _ _ _ _ ends => rcases ends with rfl | rfl | ⟨what, rfl⟩ <;> simp at stored
  | _ => simp at stored

theorem reach_sendsOwned {guard : Transmitter → List TransmitterOutput → TransmitterEvent → Prop}
    (waits : 0 ∈ tois → ∀ t log e, guard t log e → t.StoresFdt e → ¬ t.FdtFinishing)
    (reach : (transmitter env).Reach guard t log) : t.queue.Sound ∧ t.SendsOwned tois := by
  refine reach.invariant (I := fun t _ => t.queue.Sound ∧ t.SendsOwned tois) ?_ ?_
  · rintro s ⟨_, _, _, _, _, _, _, _, _, rfl⟩
    exact ⟨sound_create .., by simp [SendsOwned, create]⟩
  · rintro s log e s' out ⟨sound, owned⟩ ok run
    have effect := step_effect sound run
    exact ⟨effect.sound sound, owned.step sound effect fun looked new stored =>
      waits looked s log e ok (storesFdt_of_stored sound run stored)⟩

/-- A step that erases a file hands nothing over. -/
theorem Traffic.silent_of_erased (traffic : Traffic env t e t' out) {completed toi : Nat} {found : Option Nat}
    (erased : .erased completed toi found ∈ out) : ∀ output ∈ out, output.handing = none := by
  cases traffic with
  | made _ _ _ _ _ silent => exact silent
  | handed => simp at erased
  | failed => simp
  | marked _ _ _ _ _ _ _ silent => simpa [TransmitterOutput.handing] using silent

/-- All symbols of a file that is complete behind a step have been carried by packets. -/
theorem Traffic.carried_of_complete (traffic : Traffic env t e t' out) (sound : t'.queue.Sound)
    (recorded : t.Recorded log) (all : t.AllCarried log) {o : Nat} {f g : File} (before : t.object? o = some f)
    (silent : ∀ output ∈ out, output.handing = none) (after : t'.object? o = some g) (complete : g.complete = true)
    (key : Nat × Nat) (held : g.Holds key) : CarriedIn log o g key := by
  have done := (sound.objects o g after).1.done_of_complete complete held
  cases traffic.object after with
  | same found => exact all.carriedIn found (recorded.queued o g key found (Or.inr done))
  | made none =>
    rw [before] at none
    cases none
  | taken =>
    have hands := silent _ (List.mem_singleton_self _)
    cases hands
  | @marked index sent now h _ here same found marked =>
    have handed : HandedIn log o key := by
      rcases marked.done key done with already | now
      · exact recorded.queued o h key found (Or.inr already)
      · obtain ⟨symbol, inSent, rfl⟩ := List.mem_map.mp now
        exact same ▸ recorded.flight sent (List.mem_of_getElem? here) symbol inSent
    obtain ⟨toi, symbols, packet, datagram, member, sent, carried⟩ := all.carriedIn found handed
    exact ⟨toi, symbols, packet, datagram, marked.later.fecOti ▸ member, sent, marked.later.carriedBy ▸ carried⟩

/-- When every packet has room for its symbols, and no FDT file is replaced that its
outstanding sends alone would complete, a file leaves the queue when it has been sent,
and a completed file takes out only itself. -/
theorem erases_only_completed (reach : (transmitter env).Reach (fun t _ e =>
      (e.sends = true → t.PacketFits) ∧ (t.StoresFdt e → ¬ t.FdtFinishing)) t log)
    (run : t.step env e = some (t', out)) : t.ErasesOnlyCompleted t' log out := by
  obtain ⟨sound, owned⟩ : t.queue.Sound ∧ t.SendsOwned Set.univ := reach_sendsOwned (fun _ _ _ _ ok => ok.2) reach
  obtain ⟨_, all⟩ := reach_allCarried (fun _ _ _ ok => ok.1) reach
  have recorded := reach_recorded reach
  have effect := step_effect sound run
  refine ⟨fun k o stored => ?_, fun _ toi _ member => effect.erased owned (Set.mem_univ toi) member⟩
  rcases effect.leaves owned (Set.mem_univ k) stored with stays | ⟨erased, f, found, complete⟩ | replaced
  · exact Or.inl stays
  · obtain ⟨g, before, _⟩ := sound.files k o stored
    exact Or.inr (Or.inl ⟨f, found, complete, (effect.traffic sound).carried_of_complete (effect.sound sound) recorded
      all before ((effect.traffic sound).silent_of_erased erased) found complete⟩)
  · exact Or.inr (Or.inr replaced)

end Transmitter

/-- No FDT file is in the queue, or the step does not put one there. -/
def storesFirst (t : Transmitter) : TransmitterEvent → Bool
  | .fdtSendTick _ => t.files.find? 0 = none
  | .continueSend _ => t.files.find? 0 = none || t.call.head?.all fun
    | .storeFdt _ => false
    | _ => true
  | .socketCompleted index _ _ => t.files.find? 0 = none ||
    (t.socket[index]?.bind fun sent => t.object? sent.object).all fun f => f.entry.toi = 0
  | _ => true

theorem storesFirst_waits {t : Transmitter} {e : TransmitterEvent} (first : storesFirst t e = true)
    (stores : t.StoresFdt e) : ¬ t.FdtFinishing := by
  rintro ⟨o, f, listed, _⟩
  cases e with
  | fdtSendTick now => simp [storesFirst, listed] at first
  | continueSend now =>
    obtain ⟨new, rest, call⟩ := stores
    simp [storesFirst, listed, call] at first
  | socketCompleted index ok now =>
    cases ok with
    | false => exact stores
    | true =>
      obtain ⟨sent, g, here, found, data, _⟩ := stores
      simp [storesFirst, listed, here, found, data] at first
  | _ => exact stores

def TransmitterOutput.erasesSelf : TransmitterOutput → Bool
  | .erased completed _ found => found = some completed
  | _ => false

def TransmitterOutput.erasesOther : TransmitterOutput → Bool
  | .erased completed _ found => found.any (· ≠ completed)
  | _ => false

/-- What is seen of one more step of a run. -/
def seenNext (env : Env) (e : TransmitterEvent) (seen : List TransmitterOutput → Bool)
    (r : Transmitter × List TransmitterOutput) : Bool :=
  (r.1.step env e).any fun next => seen next.2

/-- Packets have room, and no FDT file is in the queue where one is put there. -/
def erasesSafely (t : Transmitter) (e : TransmitterEvent) : Bool :=
  (!e.sends || decide t.PacketFits) && storesFirst t e

theorem erasesSafely_meets {t : Transmitter} {e : TransmitterEvent} (safe : erasesSafely t e = true) :
    (e.sends = true → t.PacketFits) ∧ (t.StoresFdt e → ¬ t.FdtFinishing) := by
  obtain ⟨fits, first⟩ := Bool.and_eq_true_iff.mp safe
  exact ⟨fun sends => by simpa [sends] using fits, storesFirst_waits first⟩

theorem erases_only_completed_file : ∃ t log t' out, (transmitter (sampleEnv [] [])).Reach (fun t _ e =>
      (e.sends = true → t.PacketFits) ∧ (t.StoresFdt e → ¬ t.FdtFinishing)) t log ∧
    t.step (sampleEnv [] []) (.socketCompleted 0 true 0) = some (t', out) ∧
    out.any TransmitterOutput.erasesSelf = true ∧ t.ErasesOnlyCompleted t' log out := by
  obtain ⟨t, log, reach, checked⟩ := Machine.exists_reach (M := transmitter (sampleEnv [] [])) (fun t _ e =>
      (e.sends = true → t.PacketFits) ∧ (t.StoresFdt e → ¬ t.FdtFinishing)) erasesSafely (session 1500)
    (sendEvents [97] ++ [.sendNextPacket, .socketCompleted 0 true 0, .sendNextPacket])
    (seenNext (sampleEnv [] []) (.socketCompleted 0 true 0) fun out => out.any TransmitterOutput.erasesSelf)
    (fun _ _ _ => erasesSafely_meets) ⟨_, _, _, _, _, _, _, _, by decide, rfl⟩ (by rw [sampleEnv_eq]; decide +kernel)
  obtain ⟨⟨t', out⟩, run, seen⟩ := (Option.any_eq_true _ _).mp checked
  exact ⟨t, log, t', out, reach, run, seen, Transmitter.erases_only_completed reach run⟩

/-- The FDT file is replaced while its only packet is in flight; when that send
completes, the new one is erased. -/
theorem not_erases_only_completed : ¬ ∀ env t log e t' out,
    (transmitter env).Reach Machine.always t log → t.step env e = some (t', out) →
    t.ErasesOnlyCompleted t' log out := by
  intro claim
  obtain ⟨t, log, reach, checked⟩ := Machine.exists_reach (M := transmitter (sampleEnv [] []))
    Machine.always (fun _ _ => true) (session 1500) (sendEvents [97] ++ [.sendNextPacket, .fdtSendTick 5])
    (seenNext (sampleEnv [] []) (.socketCompleted 0 true 5) fun out => out.any TransmitterOutput.erasesOther)
    (fun _ _ _ _ => trivial) ⟨_, _, _, _, _, _, _, _, by decide, rfl⟩ (by rw [sampleEnv_eq]; decide +kernel)
  obtain ⟨⟨t', out⟩, run, seen⟩ := (Option.any_eq_true _ _).mp checked
  obtain ⟨output, member, erases⟩ := List.any_eq_true.mp seen
  cases output with
  | erased completed toi found =>
    obtain ⟨other, rfl, differs⟩ := (Option.any_eq_true _ _).mp erases
    have same := (claim _ t log _ t' out reach run).erased completed toi other member
    simp [same] at differs
  | _ => cases erases

end Libflute

import Libflute.Erasing
import Libflute.Progress

/-! How long a file waits for those under lower TOIs. -/

namespace Libflute

namespace File
variable {f g : File}

/-- A file with fewer symbols to send has at most as many of them. -/
theorem Sound.unsent_length_le (sound : f.Sound) (later : g.Sound)
    (fewer : ∀ key, g.Holds key → ¬ g.Done key → ¬ g.Queued key → f.Holds key ∧ ¬ f.Done key ∧ ¬ f.Queued key) :
    g.unsent.length ≤ f.unsent.length := by
  have subset : g.unsent.map Placed.key ⊆ f.unsent.map Placed.key := fun key member => by
    obtain ⟨held, undone, unqueued⟩ := later.mem_unsent_keys.mp member
    exact sound.mem_unsent_keys.mpr (fewer key held undone unqueued)
  simpa using (List.subperm_of_subset (nodup_unsent g) subset).length_le

/-- Marking symbols leaves no more to send where the digest holds. -/
theorem Marked.unsent_length_le {env : Env} {keys : List (Nat × Nat)} (marked : Marked env f g keys) (sound : f.Sound)
    (digest : f.DigestHolds env) : g.unsent.length ≤ f.unsent.length := by
  refine sound.unsent_length_le marked.sound fun key held undone unqueued => ?_
  have unmarked : key ∉ keys := fun inKeys => undone (marked.advance digest key (Or.inr inKeys))
  exact ⟨(marked.holds key).mp held, fun done => undone (marked.advance digest key (Or.inl done)),
    fun queued => unqueued ((marked.queued key).mpr ⟨queued, unmarked⟩)⟩

/-- Marking symbols that are queued takes none from those to send. -/
theorem Marked.unsent_ne_nil {env : Env} {keys : List (Nat × Nat)} (marked : Marked env f g keys) (sound : f.Sound)
    (queued : ∀ key ∈ keys, f.Queued key) (some : f.unsent ≠ []) : g.unsent ≠ [] := by
  obtain ⟨placed, member⟩ := List.exists_mem_of_ne_nil _ some
  obtain ⟨held, undone, unqueued⟩ := sound.mem_unsent_keys.mp (List.mem_map_of_mem member)
  have unmarked : placed.key ∉ keys := fun inKeys => unqueued (queued _ inKeys)
  have inKeys := marked.sound.mem_unsent_keys.mpr ⟨(marked.holds _).mpr held,
    fun done => (marked.done _ done).elim undone unmarked, fun now => unqueued ((marked.queued _).mp now).1⟩
  intro none
  rw [none] at inKeys
  cases inKeys

/-- Taking symbols leaves fewer to send. -/
theorem Taken.unsent_length_lt {n : Nat} (taken : Taken f g ((f.unsent.take n).map f.encoded)) (sound : f.Sound)
    (some : f.unsent.take n ≠ []) : g.unsent.length < f.unsent.length := by
  obtain ⟨placed, member⟩ := List.exists_mem_of_ne_nil _ some
  have inTaken : placed.key ∈ ((f.unsent.take n).map f.encoded).map EncodingSymbol.key := by
    rw [List.map_map]
    exact List.mem_map_of_mem (f := EncodingSymbol.key ∘ f.encoded) member
  have gone : placed.key ∉ g.unsent.map Placed.key := fun listed =>
    (taken.sound.mem_unsent_keys.mp listed).2.2 ((taken.queued _).mpr (Or.inr inTaken))
  have subset : placed.key :: g.unsent.map Placed.key ⊆ f.unsent.map Placed.key := by
    refine List.cons_subset.mpr ⟨List.mem_map_of_mem (List.mem_of_mem_take member), fun key listed => ?_⟩
    obtain ⟨held, undone, unqueued⟩ := taken.sound.mem_unsent_keys.mp listed
    exact sound.mem_unsent_keys.mpr ⟨(taken.holds key).mp held, fun done => undone ((taken.done key).mpr done),
      fun queued => unqueued ((taken.queued key).mpr (Or.inl queued))⟩
  simpa using (List.subperm_of_subset (List.nodup_cons.mpr ⟨gone, nodup_unsent g⟩) subset).length_le

end File

/-- The files of the packets that were handed over. -/
def handings (log : List TransmitterOutput) : List Nat := log.filterMap TransmitterOutput.handing

theorem sum_filter_le {α : Type} [DecidableEq α] {before after : List α} (distinct : before.Nodup)
    (distinct' : after.Nodup) (p : α → Bool) (old new : α → Nat) (less : ∀ a ∈ before, a ∈ after → new a ≤ old a) :
    ((after.filter p).map new).sum ≤
      ((before.filter p).map old).sum + ((after.filter fun a => p a && decide (a ∉ before)).map new).sum := by
  rw [← List.sum_toFinset _ (distinct'.filter _), ← List.sum_toFinset _ (distinct.filter _),
    ← List.sum_toFinset _ (distinct'.filter _), ← Finset.sum_inter_add_sum_sdiff _ (before.filter p).toFinset]
  refine Nat.add_le_add ?_ (Finset.sum_le_sum_of_subset fun a member => ?_)
  · refine (Finset.sum_le_sum fun a member => ?_).trans (Finset.sum_le_sum_of_subset Finset.inter_subset_right)
    simp only [Finset.mem_inter, List.mem_toFinset, List.mem_filter] at member
    exact less a member.2.1 member.1.1
  · simp only [Finset.mem_sdiff, List.mem_toFinset, List.mem_filter, Bool.and_eq_true, decide_eq_true_eq] at member ⊢
    exact ⟨member.1.1, member.1.2, fun old => member.2 ⟨old, member.1.2⟩⟩

namespace Transmitter
variable {env : Env} {t t' : Transmitter} {e : TransmitterEvent} {log out : List TransmitterOutput} {k o : Nat}

/-- How many symbols of a file are neither complete nor in flight. -/
def unsentOf (t : Transmitter) (o : Nat) : Nat := ((t.object? o).map fun f => f.unsent.length).getD 0

/-- How many symbols are to be sent before those of the file under a TOI. -/
def ahead (t : Transmitter) (k : Nat) : Nat :=
  ((t.files.entries.filter fun entry => decide (entry.1 < k)).map fun entry => t.unsentOf entry.2).sum

/-- How many symbols a step puts before those of the file under a TOI. -/
def putAhead (env : Env) (t : Transmitter) (e : TransmitterEvent) (k : Nat) : Nat :=
  (t.step env e).elim 0 fun after => ((after.1.files.entries.filter fun entry =>
    decide (entry.1 < k) && !t.files.entries.contains entry).map fun entry => after.1.unsentOf entry.2).sum

/-- The steps that put an FDT file, or a file under a lower TOI, before the file under a TOI. -/
def PutsAhead (t : Transmitter) (e : TransmitterEvent) (k : Nat) : Prop :=
  t.StoresFdt e ∨ ∃ now toi o rest, e = .continueSend now ∧ t.call = .insertFile toi o :: rest ∧ toi < k

/-- A file of the application is in the queue and has symbols to send. -/
structure Waits (t : Transmitter) (k o : Nat) : Prop where
  data : k ≠ 0
  listed : t.files.find? k = some o
  pending : ∃ f, t.object? o = some f ∧ f.unsent ≠ []

instance (t : Transmitter) (k o : Nat) : Decidable (t.Waits k o) :=
  decidable_of_iff (k ≠ 0 ∧ t.files.find? k = some o ∧ (t.object? o).any (fun f => !f.unsent.isEmpty) = true) (by
    rw [Option.any_eq_true]
    simp only [Bool.not_eq_true', List.isEmpty_eq_false_iff]
    exact ⟨fun ⟨data, listed, pending⟩ => ⟨data, listed, pending⟩,
      fun waits => ⟨waits.data, waits.listed, waits.pending⟩⟩)

theorem putAhead_of_step (run : t.step env e = some (t', out)) (k : Nat) : t.putAhead env e k =
    ((t'.files.entries.filter fun entry => decide (entry.1 < k) && decide (entry ∉ t.files.entries)).map
      fun entry => t'.unsentOf entry.2).sum := by
  simp only [putAhead, run, Option.elim_some, List.contains_eq_mem, decide_not]

theorem nodup_entries (t : Transmitter) : t.files.entries.Nodup := List.Nodup.of_map Prod.fst t.files.nodup_keys

/-- A file comes into the queue only as an FDT file that is stored, or by the step of `send` that inserts it. -/
theorem Effect.listed_before (effect : Effect env t e t' out) (listed : t'.files.find? k = some o) :
    t.files.find? k = some o ∨ k = 0 ∧ .stored o ∈ out ∨
      (∃ now, e = .continueSend now) ∧ ∃ rest, t.call = .insertFile k o :: rest := by
  have erased : ∀ {toi}, (t.files.erase toi).find? k = some o → t.files.find? k = some o := fun found => by
    rw [SortedMap.find?_erase] at found
    split_ifs at found
    exact found
  cases effect with
  | settings _ queue => exact Or.inl ((congrArg (fun q => q.files.find? k) queue).symm.trans listed)
  | rejected _ queue => exact Or.inl ((congrArg (fun q => q.files.find? k) queue).symm.trans listed)
  | hands is => rcases is with ⟨rfl, _⟩ | ⟨rfl, _⟩ <;> exact Or.inl listed
  | finishedFdt => exact Or.inl (erased listed)
  | finished => exact Or.inl (erased listed)
  | finishedStored =>
    rw [SortedMap.find?_insertOrAssign] at listed
    split_ifs at listed with fdt
    · exact Or.inr (Or.inl ⟨fdt, by simp [Option.some.inj listed]⟩)
    · exact Or.inl (erased listed)
  | ticked =>
    rw [SortedMap.find?_insertOrAssign] at listed
    split_ifs at listed with fdt
    · exact Or.inr (Or.inl ⟨fdt, by simp [Option.some.inj listed]⟩)
    · exact Or.inl listed
  | storedFdt =>
    rw [SortedMap.find?_insertOrAssign] at listed
    split_ifs at listed with fdt
    · exact Or.inr (Or.inl ⟨fdt, by simp [Option.some.inj listed]⟩)
    · exact Or.inl listed
  | @inserted now toi p rest call =>
    rw [SortedMap.find?_insert] at listed
    split_ifs at listed with here
    · rw [here]
      cases before : t.files.find? toi with
      | none =>
        rw [before, Option.getD_none] at listed
        obtain rfl := Option.some.inj listed
        exact Or.inr (Or.inr ⟨⟨now, rfl⟩, rest, call⟩)
      | some q =>
        rw [before, Option.getD_some] at listed
        exact Or.inl listed
    · exact Or.inl listed
  | _ => exact Or.inl listed

/-- Only FDT files and files under lower TOIs are put before a file. -/
theorem putAhead_eq_zero (sound : t.queue.Sound) (quiet : ¬ t.PutsAhead e k) : t.putAhead env e k = 0 := by
  cases run : t.step env e with
  | none => rw [putAhead, run, Option.elim_none]
  | some r =>
    obtain ⟨t', out⟩ := r
    have none : (t'.files.entries.filter fun entry =>
        decide (entry.1 < k) && decide (entry ∉ t.files.entries)) = [] := by
      refine List.filter_eq_nil_iff.mpr ?_
      rintro ⟨i, p⟩ member
      simp only [Bool.and_eq_true, decide_eq_true_eq, not_and, not_not]
      intro below
      rcases (step_effect sound run).listed_before (SortedMap.mem_entries.mp member) with
        before | ⟨_, stored⟩ | ⟨⟨now, continues⟩, rest, call⟩
      · exact SortedMap.mem_entries.mpr before
      · exact absurd (Or.inl (storesFdt_of_stored sound run stored)) quiet
      · exact absurd (Or.inr ⟨now, i, p, rest, continues, call, below⟩) quiet
    rw [putAhead_of_step run, none]
    rfl

theorem unsentOf_of_object? {f : File} (found : t.object? o = some f) : t.unsentOf o = f.unsent.length := by
  rw [unsentOf, found, Option.map_some, Option.getD_some]

/-- Until a file is served, it keeps something to send. -/
theorem Waits.pending_step (waits : t.Waits k o) (sound : t.queue.Sound) (traffic : Traffic env t e t' out)
    (unserved : o ∉ handings out) : ∃ g, t'.object? o = some g ∧ g.unsent ≠ [] := by
  obtain ⟨f, before, some⟩ := waits.pending
  obtain ⟨g, after, _⟩ := traffic.later before
  refine ⟨g, after, ?_⟩
  cases traffic.object after with
  | same found =>
    obtain rfl := Option.some.inj (before.symm.trans found)
    exact some
  | made none =>
    rw [before] at none
    cases none
  | taken => exact absurd (by simp [handings, TransmitterOutput.handing]) unserved
  | @marked index sent now h _ here same found marked =>
    obtain rfl := Option.some.inj (before.symm.trans found)
    refine marked.unsent_ne_nil (sound.objects o f before).1 (fun key member => ?_) some
    obtain ⟨h, there, queued⟩ := sound.flight sent (List.mem_of_getElem? here)
    rw [same] at there
    obtain rfl := Option.some.inj (before.symm.trans there)
    obtain ⟨symbol, inSent, rfl⟩ := List.mem_map.mp member
    exact queued symbol inSent

theorem Waits.step (waits : t.Waits k o) (sound : t.queue.Sound) (owned : t.SendsOwned {k | k ≠ 0})
    (effect : Effect env t e t' out) (unserved : o ∉ handings out) : t'.Waits k o := by
  obtain ⟨g, after, some⟩ := waits.pending_step sound (effect.traffic sound) unserved
  refine ⟨waits.data, ?_, g, after, some⟩
  rcases effect.leaves owned waits.data waits.listed with stays | ⟨_, h, found, complete⟩ | ⟨fdt, _⟩
  · exact stays
  · obtain rfl := Option.some.inj (after.symm.trans found)
    obtain ⟨placed, member⟩ := List.exists_mem_of_ne_nil _ some
    have later := ((effect.sound sound).objects o g after).1
    obtain ⟨held, undone, _⟩ := later.mem_unsent_keys.mp (List.mem_map_of_mem member)
    exact absurd (later.done_of_complete complete held) undone
  · exact absurd fdt waits.data

/-- No step adds to what a file of the queue has to send. -/
theorem Traffic.unsentOf_le (traffic : Traffic env t e t' out) (sound : t.queue.Sound) (filled : t.Filled env) {f : File}
    (before : t.object? o = some f) : t'.unsentOf o ≤ t.unsentOf o := by
  obtain ⟨g, after, _⟩ := traffic.later before
  rw [unsentOf_of_object? before, unsentOf_of_object? after]
  have fileSound := (sound.objects o f before).1
  cases traffic.object after with
  | same found =>
    obtain rfl := Option.some.inj (before.symm.trans found)
    exact Nat.le_refl _
  | made none =>
    rw [before] at none
    cases none
  | taken found taken =>
    obtain rfl := Option.some.inj (before.symm.trans found)
    exact fileSound.unsent_length_le taken.sound fun key held undone unqueued => ⟨(taken.holds key).mp held,
      fun done => undone ((taken.done key).mpr done), fun queued => unqueued ((taken.queued key).mpr (Or.inl queued))⟩
  | marked _ _ found marked =>
    obtain rfl := Option.some.inj (before.symm.trans found)
    exact marked.unsent_length_le fileSound (filled o f before).2

/-- A file that waits is behind the one that is served. -/
theorem Waits.served_below (waits : t.Waits k o) (sound : t.queue.Sound) {i p : Nat} (next : t.nextFile = some (i, p))
    (other : p ≠ o) : i < k := by
  obtain ⟨_, front, back, split, passed⟩ := List.find?_eq_some_iff_append.mp next
  have member : (k, o) ∈ t.files.entries := SortedMap.mem_entries.mpr waits.listed
  obtain ⟨f, found, _, incomplete⟩ := sound.files k o waits.listed
  have sorted := t.files.sorted
  rw [split] at member sorted
  rw [List.map_append, List.map_cons, List.pairwise_append, List.pairwise_cons] at sorted
  rcases List.mem_append.mp member with early | late
  · have complete := passed _ early
    rw [show t.object? o = some f from found, Option.any_some, incomplete] at complete
    cases complete
  · rcases List.mem_cons.mp late with same | behind
    · exact absurd (Prod.mk.inj same).2.symm other
    · exact sorted.2.1.1 k (List.mem_map_of_mem (f := Prod.fst) behind)

/-- A step hands nothing over, or serves the first file of the queue, which then has fewer symbols to send. -/
theorem Effect.serves (effect : Effect env t e t' out) (sound : t.queue.Sound) : handings out = [] ∨
    ∃ i p, t.nextFile = some (i, p) ∧ handings out = [p] ∧ t'.files = t.files ∧ t'.unsentOf p < t.unsentOf p := by
  cases effect with
  | @hands _ s i p f n packet is hands =>
    obtain ⟨object, next, files⟩ : t.object? p = some f ∧ t.nextFile = some (i, p) ∧ s.files = t.files := by
      rcases is with ⟨rfl, _⟩ | ⟨rfl, _⟩ <;> exact ⟨hands.object, hands.next, rfl⟩
    have fileSound := (sound.objects p f object).1
    refine Or.inr ⟨i, p, next, rfl, files, ?_⟩
    have after : ({ s with
        objects := t.objects.set p (f.queue ((f.unsent.take n).map Placed.key))
        socket := t.socket ++ [⟨p, (f.unsent.take n).map f.encoded⟩] } : Transmitter).object? p =
        some (f.queue ((f.unsent.take n).map Placed.key)) := (getElem?_set object _ p).trans (if_pos rfl)
    rw [unsentOf_of_object? object, unsentOf_of_object? after]
    exact (fileSound.taken n).unsent_length_lt fileSound hands.some
  | finished _ _ _ _ _ _ ends =>
    rcases ends with rfl | rfl | ⟨what, rfl⟩ <;> exact Or.inl (by simp [handings, TransmitterOutput.handing])
  | finishedStored _ _ _ _ _ _ _ ends =>
    rcases ends with rfl | rfl <;> exact Or.inl (by simp [handings, TransmitterOutput.handing])
  | _ => exact Or.inl (by simp [handings, TransmitterOutput.handing])

/-- Until a file is served, each packet that is handed over takes from what is
before it, and nothing is added but what the step puts there. -/
theorem Waits.ahead_step (waits : t.Waits k o) (sound : t.queue.Sound) (filled : t.Filled env)
    (run : t.step env e = some (t', out)) (unserved : o ∉ handings out) :
    (handings out).length + t'.ahead k ≤ t.ahead k + t.putAhead env e k := by
  have effect := step_effect sound run
  have fewer : ∀ entry ∈ t.files.entries, t'.unsentOf entry.2 ≤ t.unsentOf entry.2 := fun entry member => by
    obtain ⟨f, found, _⟩ := sound.files entry.1 entry.2 (SortedMap.mem_entries.mp member)
    exact (effect.traffic sound).unsentOf_le sound filled found
  rcases effect.serves sound with silent | ⟨i, p, next, served, files, less⟩
  · rw [silent, putAhead_of_step run]
    simpa [ahead] using sum_filter_le t.nodup_entries t'.nodup_entries (fun entry => decide (entry.1 < k))
      (fun entry => t.unsentOf entry.2) (fun entry => t'.unsentOf entry.2) fun entry member _ => fewer entry member
  · have below : i < k := waits.served_below sound next fun same => unserved (by rw [served, same]; simp)
    have strict : t'.ahead k < t.ahead k := by
      rw [ahead, ahead, files]
      refine List.sum_lt_sum _ _ (fun entry member => fewer entry (List.mem_filter.mp member).1) ⟨(i, p), ?_, less⟩
      exact List.mem_filter.mpr ⟨SortedMap.mem_entries.mpr (nextFile_spec next).1, by simpa using below⟩
    rw [served, List.length_singleton]
    omega

/-- Until a file is served, the packets handed over in a run are no more than what was
before it and what the steps put there. -/
theorem Waits.ahead_steps (waits : t.Waits k o) (reach : (transmitter env).Reach (fun t _ e => t.Supplied env e) t log)
    {trace : List (Machine.Taken Transmitter TransmitterEvent TransmitterOutput)}
    (steps : (transmitter env).Steps (Supplied env) t trace t') (unserved : o ∉ handings (Machine.observed trace)) :
    t'.Waits k o ∧ (handings (Machine.observed trace)).length + t'.ahead k ≤
      t.ahead k + (trace.map fun taken => taken.before.putAhead env taken.event k).sum := by
  induction steps with
  | refl => exact ⟨waits, by simp [handings, Machine.observed]⟩
  | @step trace s e s' out steps _ run ih =>
    rw [Machine.observed_concat, handings, List.filterMap_append, List.mem_append, not_or] at unserved
    obtain ⟨still, before⟩ := ih unserved.1
    have reached := reach.steps steps
    obtain ⟨sound, owned⟩ : s.queue.Sound ∧ s.SendsOwned {k | k ≠ 0} := reach_sendsOwned (fun fdt => absurd rfl fdt) reached
    obtain ⟨⟨_, filled⟩, _⟩ := reach_supplied reached
    refine ⟨still.step sound owned (step_effect sound run) unserved.2, ?_⟩
    have now := still.ahead_step sound filled run unserved.2
    rw [Machine.observed_concat, handings, List.filterMap_append, List.length_append, List.map_append, List.sum_append,
      List.map_singleton, List.sum_singleton]
    simp only [handings] at before now ⊢
    omega

/-- While nothing gets stuck, a transmitter with files in its queue goes on sending,
hands each symbol over once, and serves a file once more packets have been handed over
than there were symbols before it or were put there, by FDT files and files under lower TOIs. -/
theorem keeps_sending (env : Env) (t : Transmitter) (log : List TransmitterOutput)
    (reach : (transmitter env).Reach (fun t _ e => t.Supplied env e) t log) :
    t.KeepsSending env ∧ (log.flatMap TransmitterOutput.keys).Nodup ∧
    ∀ k o, t.Waits k o → ∀ trace t', (transmitter env).Steps (Supplied env) t trace t' →
      (∀ taken ∈ trace, ¬ taken.before.PutsAhead taken.event k → taken.before.putAhead env taken.event k = 0) ∧
      (t.ahead k + (trace.map fun taken => taken.before.putAhead env taken.event k).sum <
        (handings (Machine.observed trace)).length → o ∈ handings (Machine.observed trace)) := by
  obtain ⟨_, sending, once⟩ := reach_supplied reach
  refine ⟨sending, once, fun k o waits trace t' steps => ⟨fun taken member quiet => ?_, fun enough => ?_⟩⟩
  · obtain ⟨log', before⟩ := reach.taken steps member
    obtain ⟨sound, _⟩ : taken.before.queue.Sound ∧ taken.before.SendsOwned {k | k ≠ 0} :=
      reach_sendsOwned (fun fdt => absurd rfl fdt) before
    exact putAhead_eq_zero sound quiet
  · by_contra unserved
    obtain ⟨_, bounded⟩ := waits.ahead_steps reach steps unserved
    omega

end Transmitter

/-- A send fails: its symbol stays queued, and no packet is sent any more. -/
theorem failed_send_stalls : ∃ t log, (transmitter (sampleEnv [] [])).Reach Machine.always t log ∧
    (t.active && !t.files.entries.isEmpty && t.socket.isEmpty && t.sendNextPacket.seen.isEmpty) = true := by
  refine Machine.exists_reach _ (fun _ _ => true) (session 1500)
    (sendEvents [97] ++ [.sendNextPacket, .socketCompleted 0 false 0])
    (fun r => r.1.active && !r.1.files.entries.isEmpty && r.1.socket.isEmpty &&
      r.1.sendNextPacket.seen.isEmpty)
    (fun _ _ _ _ => trivial) ⟨_, _, _, _, _, _, _, _, by decide, rfl⟩ ?_
  rw [sampleEnv_eq]
  decide +kernel

theorem not_keeps_sending : ¬ ∀ env t log, (transmitter env).Reach Machine.always t log →
    t.KeepsSending env := by
  intro claim
  obtain ⟨t, log, reach, found⟩ := failed_send_stalls
  simp only [Bool.and_eq_true, Bool.not_eq_true', List.isEmpty_iff, List.isEmpty_eq_false_iff] at found
  obtain ⟨⟨⟨active, nonempty⟩, idle⟩, nothing⟩ := found
  obtain ⟨t', o, toi, fecOti, symbols, packet, datagram, _, run⟩ := claim _ t log reach active nonempty idle
  have performed : t.perform (sampleEnv [] []) .sendNextPacket = some t.sendNextPacket := rfl
  rcases Transmitter.step_ok performed run with
    ⟨_, _, seen⟩ | ⟨what, _, _, seen⟩
  · rw [nothing] at seen
    cases seen
  · rw [nothing] at seen
    cases seen

/-- The steps that send the first packet of a file behind the one of an FDT. -/
def behindFdt : List TransmitterEvent := [.sendNextPacket, .socketCompleted 0 true 0, .sendNextPacket]

/-- The steps from a state, where the file 0 under TOI 1 waits, hand over more packets than come before it. -/
def overtakes (env : Env) (events : List TransmitterEvent) (t : Transmitter) : Bool :=
  decide (t.Waits 1 0) &&
    ((transmitter env).follow (fun t e => decide (t.Supplied env e)) t [] events).any fun run =>
      decide (t.ahead 1 + (run.1.map fun taken => taken.before.putAhead env taken.event 1).sum <
        (handings (Machine.observed run.1)).length)

theorem keeps_sending_one_file : ∃ t log trace t',
    (transmitter (sampleEnv [] [])).Reach (fun t _ e => t.Supplied (sampleEnv [] []) e) t log ∧
    t.KeepsSending (sampleEnv [] []) ∧ t.Waits 1 0 ∧
    (transmitter (sampleEnv [] [])).Steps (Transmitter.Supplied (sampleEnv [] [])) t trace t' ∧
    0 ∈ handings (Machine.observed trace) := by
  obtain ⟨t, log, reach, checked⟩ := Machine.exists_reach (M := transmitter (sampleEnv [] []))
    (fun t _ e => t.Supplied (sampleEnv [] []) e) (fun t e => decide (t.Supplied (sampleEnv [] []) e))
    (session 1500) (sendEvents [97])
    (fun r => overtakes (sampleEnv [] []) behindFdt r.1)
    (fun _ _ _ may => of_decide_eq_true may) ⟨_, _, _, _, _, _, _, _, by decide, rfl⟩ (by rw [sampleEnv_eq]; decide +kernel)
  obtain ⟨waits, follows⟩ := Bool.and_eq_true_iff.mp checked
  obtain ⟨⟨trace, t'⟩, run, more⟩ := (Option.any_eq_true _ _).mp follows
  have steps : (transmitter (sampleEnv [] [])).Steps (Transmitter.Supplied (sampleEnv [] [])) t trace t' :=
    Machine.Steps.follow (fun _ _ may => of_decide_eq_true may) .refl run
  obtain ⟨sending, _, serves⟩ := Transmitter.keeps_sending _ t log reach
  exact ⟨t, log, trace, t', reach, sending, of_decide_eq_true waits, steps,
    (serves 1 0 (of_decide_eq_true waits) trace t' steps).2 (of_decide_eq_true more)⟩

end Libflute

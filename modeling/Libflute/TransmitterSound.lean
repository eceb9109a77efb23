import Libflute.TransmitterEffect

/-! The transmitter's queue is sound in every run. -/

namespace Libflute
namespace Transmitter
variable {env : Env} {t t' : Transmitter} {e : TransmitterEvent} {out : List TransmitterOutput}

theorem FdtFile.ready {table : FileDeliveryTable} {f : File} (fdt : FdtFile env t table f) :
    f.Sound ∧ f.entry.toi < 2 ^ 16 ∧ f.complete = false :=
  ⟨fdt.new.sound, by rw [fdt.toi]; decide, fdt.new.incomplete⟩

theorem dataFile_ready {contentLocation contentType : String} {expires : Nat} {data : List UInt8} {f : File}
    (made : File.ofData env t.toi.toNat t.fecOti contentLocation contentType expires data false = .ok f) :
    f.entry.toi = t.toi.toNat ∧ f.Sound ∧ f.entry.toi < 2 ^ 16 ∧ f.complete = false := by
  obtain ⟨new, _, _, _, _, entry⟩ := File.ofData_new made
  have toi : f.entry.toi = t.toi.toNat := by rw [entry]
  exact ⟨toi, new.sound, by rw [toi]; exact t.toi.toNat_lt, new.incomplete⟩

theorem descriptionFile_ready {fd : FileDescription} {f : File} (made : File.ofDescription env fd = .ok f) :
    f.Sound ∧ f.entry.toi < 2 ^ 16 ∧ f.complete = false := by
  obtain ⟨new, _, toi, _⟩ := File.ofDescription_new made
  exact ⟨new.sound, by rw [toi]; exact fd.toi_lt, new.incomplete⟩

/-- Making an FDT file and putting it into the queue at once. -/
theorem sound_storeNew {q : SendQueue} (sound : q.Sound) {f : File} (ready : f.Sound ∧ f.entry.toi < 2 ^ 16 ∧
    f.complete = false) (fdt : f.entry.toi = 0) :
    ({ q with
      objects := q.objects ++ [f]
      files := q.files.insertOrAssign 0 q.objects.length } : SendQueue).Sound := by
  have made := sound.make [f] q.call (by simpa using ready)
    (fun k o member => Or.inl member) sound.waitingDistinct
  refine made.store (k := 0) (o := q.objects.length) (fun j p found => ?_) ⟨f, by simp, fdt, ready.2.2⟩ ?_
  · rw [SortedMap.find?_insertOrAssign] at found
    split at found
    · next here =>
      obtain rfl := Option.some.inj found
      exact Or.inl (by rw [here])
    · exact Or.inr found
  · intro listed
    obtain ⟨⟨k, o⟩, member, same⟩ := List.mem_map.mp listed
    obtain ⟨⟨g, found, _⟩, _⟩ := sound.waiting k o member
    have inside := (List.getElem?_eq_some_iff.mp found).1
    change o = q.objects.length at same
    omega

/-- A file that is complete leaves the queue with its TOI. -/
theorem erased_left {q : SendQueue} (sound : q.Sound) {object : Nat} {f : File} {complete : Bool}
    (found : q.objects[object]? = some f) (k o : Nat)
    (stored : (q.files.erase f.entry.toi).find? k = some o) :
    q.files.find? k = some o ∧ (o = object → complete = false) := by
  rw [SortedMap.find?_erase] at stored
  split at stored
  · cases stored
  · next other =>
    refine ⟨stored, fun same => absurd ?_ other⟩
    obtain ⟨g, here, toi, _⟩ := sound.files k o stored
    rw [same, found] at here
    obtain rfl := Option.some.inj here
    exact toi.symm

theorem Effect.sound (effect : Effect env t e t' out) (sound : t.queue.Sound) : t'.queue.Sound := by
  cases effect with
  | settings _ queue => exact queue ▸ sound
  | rejected _ queue => exact queue ▸ sound
  | @hands e s k o f n packet is hands =>
    obtain ⟨listed, _⟩ := nextFile_spec hands.next
    have found := hands.object
    have taken : ∀ q : SendQueue, q.Sound → q.objects[o]? = some f →
        File.Taken f (f.queue ((f.unsent.take n).map Placed.key)) ((f.unsent.take n).map f.encoded) :=
      fun q sound found => (sound.objects o f found).1.taken n
    rcases is with ⟨rfl, _⟩ | ⟨rfl, _⟩
    · exact sound.hand listed found (taken _ sound found)
    · exact sound.hand listed found (taken _ sound found)
  | failed here => exact sound.fail _
  | marked here found marked incomplete =>
    exact sound.mark here found marked fun k o stored => ⟨stored, fun _ => incomplete⟩
  | finishedFdt here found marked complete fdt =>
    rw [← fdt]
    exact sound.mark here found marked (erased_left sound found)
  | finished here found marked complete data same seen =>
    exact sound.mark here found marked (erased_left sound found)
  | finishedStored here found marked complete data same isFdt seen =>
    have after := sound.mark here found marked (erased_left sound found)
    have stored := sound_storeNew after isFdt.ready isFdt.toi
    simpa only [SendQueue.mk.injEq, Transmitter.queue, List.length_set] using stored
  | tickFailed => exact sound
  | ticked same isFdt => exact sound_storeNew sound isFdt.ready isFdt.toi
  | dataFailed idle made =>
    exact sound.make _ _ (by simpa using (dataFile_ready made).2) (fun k o member => Or.inl member)
      sound.waitingDistinct
  | @dataStarted _ _ _ _ _ f table fdtFile idle made same isFdt =>
    obtain ⟨toi, ready⟩ := dataFile_ready made
    refine sound.make [f, fdtFile] _ (by simpa using ⟨ready, isFdt.ready⟩) (fun k o member => Or.inr ?_) ?_
    · rcases (by simpa [SendStep.waiting] using member : (k = 0 ∧ o = t.objects.length + 1) ∨
        (t.toi.toNat = k ∧ t.objects.length = o)) with ⟨rfl, rfl⟩ | ⟨rfl, rfl⟩
      · exact ⟨Nat.le_succ _, fdtFile, by simp [queue], isFdt.toi⟩
      · exact ⟨le_rfl, f, by simp [queue], toi⟩
    · change [t.objects.length + 1, t.objects.length].Nodup
      simp
  | @described fd f toi idle made =>
    refine sound.make [f] _ (by simpa using descriptionFile_ready made)
      (fun k o member => Or.inr ?_) ?_
    · obtain ⟨rfl, rfl⟩ : k = f.entry.toi ∧ o = t.objects.length := by
        simpa [SendStep.waiting] using member
      exact ⟨le_rfl, f, by simp [queue], rfl⟩
    · exact List.nodup_singleton t.objects.length
  | @storedFdt now o rest call =>
    refine sound.storeWaiting call rfl fun j p found => ?_
    rw [SortedMap.find?_insertOrAssign] at found
    split at found
    · next here =>
      obtain rfl := Option.some.inj found
      exact Or.inl (by rw [here])
    · exact Or.inr found
  | @inserted now toi o rest call =>
    refine sound.storeWaiting call rfl fun j p found => ?_
    rw [SortedMap.find?_insert] at found
    split at found
    · next here =>
      subst here
      cases before : t.files.find? j with
      | none =>
        simp only [before, Option.getD_none, Option.some.injEq] at found
        exact Or.inl (by rw [found])
      | some q =>
        simp only [before, Option.getD_some, Option.some.injEq] at found
        exact Or.inr (by rw [← found]; exact before)
    · exact Or.inr found
  | markedSent call =>
    refine sound.of_sublist ?_
    rw [SendQueue.waiting, queue, call]
    exact List.Sublist.refl _
  | addFailed call => exact sound.of_sublist (List.nil_sublist _)
  | @added now o rest f table fdtFile call found same isFdt =>
    have old : t.queue.waiting = rest.filterMap SendStep.waiting := by
      rw [SendQueue.waiting, queue, call]
      rfl
    refine sound.make [fdtFile] _ (by simpa using isFdt.ready) (fun k p member => ?_) ?_
    · rcases List.mem_cons.mp (show (k, p) ∈ (0, t.objects.length) :: rest.filterMap SendStep.waiting
        from member) with same | before
      · obtain ⟨rfl, rfl⟩ := Prod.mk.inj same
        exact Or.inr ⟨le_rfl, fdtFile, by simp [queue], isFdt.toi⟩
      · exact Or.inl (old ▸ before)
    · change (((0, t.objects.length) :: rest.filterMap SendStep.waiting).map Prod.snd).Nodup
      rw [List.map_cons, List.nodup_cons, ← old]
      refine ⟨fun listed => ?_, sound.waitingDistinct⟩
      obtain ⟨⟨k, p⟩, member, same⟩ := List.mem_map.mp listed
      obtain ⟨⟨g, there, _⟩, _⟩ := sound.waiting k p member
      have inside := (List.getElem?_eq_some_iff.mp there).1
      change p = t.objects.length at same
      change p < t.objects.length at inside
      omega
  | returned call =>
    refine sound.of_sublist ?_
    rw [SendQueue.waiting, queue, call]
    exact List.Sublist.refl _

theorem sound_create (tsi mtu : Nat) (endpoint : Endpoint) (sourceAddress : Option Nat)
    (tunnelEndpoint : Option Endpoint) (tunnelLocalAddress : Nat) (fdtNamespace : FdtNamespace)
    (active : Bool) : (create tsi mtu endpoint sourceAddress tunnelEndpoint tunnelLocalAddress fdtNamespace
      active).queue.Sound := by
  constructor <;> simp [create, queue, SendQueue.waiting]

/-- The queue is sound in every run. -/
theorem reach_sound {guard : Transmitter → List TransmitterOutput → TransmitterEvent → Prop}
    {log : List TransmitterOutput} (reach : (transmitter env).Reach guard t log) : t.queue.Sound :=
  reach.invariant (I := fun t _ => t.queue.Sound)
    (fun _ ⟨_, _, _, _, _, _, _, _, _, made⟩ => made ▸ sound_create ..)
    (fun _ _ _ _ _ sound _ run => (step_effect sound run).sound sound)

end Transmitter
end Libflute

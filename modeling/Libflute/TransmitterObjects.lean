import Libflute.TransmitterSound

/-! What a step does to the files that have been made and to the outstanding sends. -/

namespace Libflute

/-- Sending changes a file only in what is queued and complete. -/
structure File.Later (f g : File) : Prop where
  entry : g.entry = f.entry
  buffer : g.buffer = f.buffer
  shape : g.shape = f.shape
  fdtInstanceId : g.fdtInstanceId = f.fdtInstanceId

namespace File
variable {f g : File} {env : Env}

theorem Later.refl (f : File) : f.Later f := ⟨rfl, rfl, rfl, rfl⟩

theorem Later.fecOti (later : f.Later g) : g.fecOti = f.fecOti := by
  rw [File.fecOti, File.fecOti, later.entry]

theorem Later.holds_iff (later : f.Later g) {key : Nat × Nat} : g.Holds key ↔ f.Holds key := by
  rw [holds_iff_slot, holds_iff_slot, slot?_congr later.shape]

theorem Later.slotBytes (later : f.Later g) : g.slotBytes = f.slotBytes := by
  funext key
  simp only [File.slotBytes, slot?_congr later.shape, later.buffer]

theorem Taken.later {symbols : List EncodingSymbol} (taken : Taken f g symbols) : f.Later g :=
  ⟨taken.entry, taken.buffer, taken.shape, taken.fdtInstanceId⟩

theorem Marked.later {keys : List (Nat × Nat)} (marked : Marked env f g keys) : f.Later g :=
  ⟨marked.entry, marked.buffer, marked.shape, marked.fdtInstanceId⟩

end File

namespace Transmitter
variable {env : Env} {t t' : Transmitter} {e : TransmitterEvent} {out : List TransmitterOutput} {o : Nat}
  {f g : File}

theorem getElem?_append_cases {objects news : List File} (found : (objects ++ news)[o]? = some g) :
    objects[o]? = some g ∨ (objects[o]? = none ∧ g ∈ news) := by
  by_cases old : o < objects.length
  · rw [List.getElem?_append_left old] at found
    exact Or.inl found
  · rw [List.getElem?_append_right (by omega)] at found
    exact Or.inr ⟨List.getElem?_eq_none (by omega), List.mem_of_getElem? found⟩

/-- What a new file is made of. -/
inductive MadeBy (env : Env) (t : Transmitter) (f : File) : TransmitterEvent → Prop
  | fdt {event} (table : FileDeliveryTable) : FdtFile env t table f → MadeBy env t f event
  | data {contentLocation contentType expires data now} :
      File.ofData env t.toi.toNat t.fecOti contentLocation contentType expires data false = .ok f →
      MadeBy env t f (.sendData contentLocation contentType expires data now)
  | description {fd} : File.ofDescription env ((fd.assign t.tsi t.toi).mergeFecOti t.fecOti t.noCode) = .ok f →
      MadeBy env t f (.sendDescription fd)

theorem MadeBy.new (made : MadeBy env t f e) : f.New := by
  cases made with
  | fdt table isFdt => exact isFdt.new
  | data run => exact (File.ofData_new run).1
  | description run => exact (File.ofDescription_new run).1

/-- What a step does to the files that have been made and to the outstanding sends. -/
inductive Traffic (env : Env) (t : Transmitter) :
    TransmitterEvent → Transmitter → List TransmitterOutput → Prop
  | made {event t' seen} (news : List File) : event.completes = false → (∀ f ∈ news, MadeBy env t f event) →
      t'.objects = t.objects ++ news → t'.socket = t.socket →
      (∀ output ∈ seen, output.handing = none) → Traffic env t event t' seen
  | handed {event t' s k o f n packet} :
      (s = t ∧ event = .sendNextPacket ∨ s = { t with active := true } ∧ event = .activate) →
      s.Hands k o f n packet → t.object? o = some f →
      File.Taken f (f.queue ((f.unsent.take n).map Placed.key))
        ((f.unsent.take n).map f.encoded) → t'.objects = t.objects.set o (f.queue ((f.unsent.take n).map Placed.key)) →
      t'.socket = t.socket ++ [⟨o, (f.unsent.take n).map f.encoded⟩] → Traffic env t event t'
        [.handed o f.entry.toi f.fecOti ((f.unsent.take n).map f.encoded) packet (t.datagram packet)]
  | failed {index now t'} : t'.objects = t.objects → t'.socket = t.socket.eraseIdx index →
      Traffic env t (.socketCompleted index false now) t' []
  | marked {index now t' sent f g seen} (news : List File) : t.socket[index]? = some sent → t.object? sent.object = some f →
      File.Marked env f g (sent.symbols.map EncodingSymbol.key) →
      (∀ f ∈ news, MadeBy env t f (.socketCompleted index true now)) →
      t'.objects = t.objects.set sent.object g ++ news → t'.socket = t.socket.eraseIdx index →
      (∀ output ∈ seen, output.handing = none) →
      Traffic env t (.socketCompleted index true now) t' (.marked sent.object sent.symbols :: seen)

theorem Effect.traffic (effect : Effect env t e t' out) (sound : t.queue.Sound) : Traffic env t e t' out := by
  cases effect with
  | settings passive queue =>
    exact .made [] (TransmitterEvent.completes_of_passive passive) (by simp)
      (by rw [List.append_nil]; exact congrArg SendQueue.objects queue) (congrArg SendQueue.socket queue) (by simp)
  | rejected refused queue =>
    exact .made [] refused.completes (by simp)
      (by rw [List.append_nil]; exact congrArg SendQueue.objects queue) (congrArg SendQueue.socket queue)
      (by simp [TransmitterOutput.handing])
  | @hands e s k o f n packet is hands =>
    have object : t.object? o = some f := by
      rcases is with ⟨rfl, _⟩ | ⟨rfl, _⟩ <;> exact hands.object
    exact .handed is hands object ((sound.objects o f object).1.taken n) rfl rfl
  | failed here => exact .failed rfl rfl
  | marked here object marked => exact .marked [] here object marked (by simp) (by simp) rfl (by simp)
  | finishedFdt here object marked =>
    exact .marked [] here object marked (by simp) (by simp) rfl
      (by simp [TransmitterOutput.handing])
  | finished here object marked _ _ _ ends =>
    refine .marked [] here object marked (by simp) (by simp) rfl ?_
    rcases ends with rfl | rfl | ⟨what, rfl⟩ <;> simp [TransmitterOutput.handing]
  | @finishedStored _ _ _ _ _ _ fdtFile _ here object marked _ _ _ isFdt ends =>
    refine .marked [fdtFile] here object marked (by simpa using .fdt _ isFdt) rfl rfl ?_
    rcases ends with rfl | rfl <;> simp [TransmitterOutput.handing]
  | tickFailed => exact .made [] rfl (by simp) (by simp) rfl (by simp [TransmitterOutput.handing])
  | ticked same isFdt => exact .made _ rfl (by simpa using .fdt _ isFdt) rfl rfl (by simp [TransmitterOutput.handing])
  | dataFailed idle made => exact .made _ rfl (by simpa using .data made) rfl rfl (by simp [TransmitterOutput.handing])
  | dataStarted idle made same isFdt =>
    exact .made _ rfl (by simpa using ⟨.data made, .fdt _ isFdt⟩) rfl rfl (by simp [TransmitterOutput.handing])
  | described idle made => exact .made _ rfl (by simpa using .description made) rfl rfl (by simp)
  | storedFdt => exact .made [] rfl (by simp) (by simp) rfl (by simp [TransmitterOutput.handing])
  | markedSent => exact .made [] rfl (by simp) (by simp) rfl (by simp)
  | inserted => exact .made [] rfl (by simp) (by simp) rfl (by simp)
  | addFailed => exact .made [] rfl (by simp) (by simp) rfl (by simp [TransmitterOutput.handing])
  | added call object same isFdt =>
    exact .made _ rfl (by simpa using .fdt _ isFdt) rfl rfl (by simp [TransmitterOutput.handing])
  | returned => exact .made [] rfl (by simp) (by simp) rfl (by simp [TransmitterOutput.handing])

/-- Replacing one file in the list of all files. -/
theorem getElem?_set {objects : List File} (found : objects[o]? = some f) (g : File) (p : Nat) :
    (objects.set o g)[p]? = if p = o then some g else objects[p]? :=
  SendQueue.getElem?_set_object (q := ⟨objects, .empty, [], []⟩) found g p

/-- How the file `o` came to be what it is after a step. -/
inductive ObjectStep (env : Env) (t : Transmitter) (o : Nat) (g : File) :
    TransmitterEvent → List TransmitterOutput → Prop
  | same {event seen} : t.object? o = some g → (∀ output ∈ seen, output.handing ≠ some o) →
      (∀ index now sent, event = .socketCompleted index true now → t.socket[index]? = some sent →
        sent.object ≠ o) → ObjectStep env t o g event seen
  | made {event seen} : t.object? o = none → MadeBy env t g event → ObjectStep env t o g event seen
  | taken {event f n packet} : t.object? o = some f →
      File.Taken f g ((f.unsent.take n).map f.encoded) →
      ObjectStep env t o g event [.handed o f.entry.toi f.fecOti ((f.unsent.take n).map f.encoded) packet
        (t.datagram packet)]
  | marked {index sent now f seen} : t.socket[index]? = some sent → sent.object = o → t.object? o = some f →
      File.Marked env f g (sent.symbols.map EncodingSymbol.key) → (∀ output ∈ seen, output.handing = none) →
      ObjectStep env t o g (.socketCompleted index true now) seen

theorem Traffic.object (traffic : Traffic env t e t' out) (found : t'.object? o = some g) :
    ObjectStep env t o g e out := by
  cases traffic with
  | made fresh quiet news objects _ silent =>
    have now : (t.objects ++ fresh)[o]? = some g := by rw [← objects]; exact found
    rcases getElem?_append_cases now with old | ⟨none, member⟩
    · refine .same old (fun output member => by rw [silent output member]; simp) ?_
      rintro index now sent rfl
      exact absurd quiet (by simp [TransmitterEvent.completes])
    · exact .made none (news g member)
  | @handed _ _ s k p f n packet is _ object taken objects =>
    have now : (t.objects.set p (f.queue ((f.unsent.take n).map Placed.key)))[o]? = some g := by rw [← objects]; exact found
    rw [getElem?_set object] at now
    split at now
    · next same =>
      subst same
      obtain rfl := Option.some.inj now
      exact .taken object taken
    · next other =>
      refine .same now (by simpa [TransmitterOutput.handing] using Ne.symm other) ?_
      rintro index now sent rfl
      rcases is with ⟨_, same⟩ | ⟨_, same⟩ <;> cases same
  | failed objects =>
    refine .same (by rw [object?, ← objects]; exact found) (by simp) ?_
    rintro index now sent ⟨⟩
  | @marked index now _ sent f h seen news here object marked fresh objects _ silent =>
    have quiet : ∀ output ∈ TransmitterOutput.marked sent.object sent.symbols :: seen, output.handing = none := by
      simpa [TransmitterOutput.handing] using silent
    have now : (t.objects.set sent.object h ++ news)[o]? = some g := by rw [← objects]; exact found
    rcases getElem?_append_cases now with old | ⟨none, member⟩
    · rw [getElem?_set object] at old
      split at old
      · next same =>
        obtain rfl := Option.some.inj old
        exact .marked here same.symm (same ▸ object) marked quiet
      · next other =>
        refine .same old (fun output member => by rw [quiet output member]; simp) ?_
        intro index' now' sent' event there
        cases event
        rw [here] at there
        obtain rfl := Option.some.inj there
        exact Ne.symm other
    · exact .made (by simpa [object?] using none) (fresh g member)

/-- Files are never dropped from the list of all files. -/
theorem Traffic.objects_length (traffic : Traffic env t e t' out) : t.objects.length ≤ t'.objects.length := by
  cases traffic with
  | made _ _ _ objects => simp [objects]
  | handed _ _ _ _ objects => simp [objects]
  | failed objects => rw [objects]
  | marked _ _ _ _ _ objects => simp [objects]

/-- A file that has been made stays, and is only queued and completed. -/
theorem Traffic.later (traffic : Traffic env t e t' out) (found : t.object? o = some f) :
    ∃ g, t'.object? o = some g ∧ f.Later g := by
  have inside := object?_lt found
  have there : o < t'.objects.length := inside.trans_le traffic.objects_length
  refine ⟨t'.objects[o], List.getElem?_eq_getElem there, ?_⟩
  cases traffic.object (List.getElem?_eq_getElem there) with
  | same before =>
    rw [found] at before
    rw [← Option.some.inj before]
    exact File.Later.refl f
  | made none =>
    rw [found] at none
    cases none
  | taken before taken =>
    rw [found] at before
    obtain rfl := Option.some.inj before
    exact taken.later
  | marked _ _ before marked =>
    rw [found] at before
    obtain rfl := Option.some.inj before
    exact marked.later

/-- A send is outstanding because its packet was just handed to the socket, or
because it was outstanding before. -/
theorem Traffic.socket (traffic : Traffic env t e t' out) {sent : InFlight} (member : sent ∈ t'.socket) :
    sent ∈ t.socket ∨ ∃ f packet, t.object? sent.object = some f ∧
      out = [.handed sent.object f.entry.toi f.fecOti sent.symbols packet (t.datagram packet)] := by
  cases traffic with
  | made _ _ _ _ socket => exact Or.inl (socket ▸ member)
  | handed _ _ object _ _ socket =>
    rw [socket] at member
    rcases List.mem_append.mp member with old | new
    · exact Or.inl old
    · obtain rfl := List.mem_singleton.mp new
      exact Or.inr ⟨_, _, object, rfl⟩
  | failed _ socket => exact Or.inl (List.mem_of_mem_eraseIdx (socket ▸ member))
  | marked _ _ _ _ _ _ socket => exact Or.inl (List.mem_of_mem_eraseIdx (socket ▸ member))

/-- A packet is handed over only by `send_next_packet`. -/
theorem Traffic.handed_seen (traffic : Traffic env t e t' out) {toi : Nat} {fecOti : FecOti}
    {symbols : List EncodingSymbol} {packet datagram : List UInt8}
    (member : TransmitterOutput.handed o toi fecOti symbols packet datagram ∈ out) :
    ∃ s k f n, (s = t ∧ e = .sendNextPacket ∨ s = { t with active := true } ∧ e = .activate) ∧
      s.Hands k o f n packet ∧ t.object? o = some f ∧ toi = f.entry.toi ∧ fecOti = f.fecOti ∧
      symbols = (f.unsent.take n).map f.encoded ∧ datagram = t.datagram packet := by
  cases traffic with
  | made _ _ _ _ _ silent => simpa [TransmitterOutput.handing] using silent _ member
  | @handed _ _ s k p f n packet' is hands object =>
    simp only [List.mem_singleton, TransmitterOutput.handed.injEq] at member
    obtain ⟨rfl, rfl, rfl, rfl, rfl, rfl⟩ := member
    exact ⟨s, k, f, n, is, hands, object, rfl, rfl, rfl, rfl⟩
  | failed => simp at member
  | marked _ _ _ _ _ _ _ silent =>
    rcases List.mem_cons.mp member with same | later
    · cases same
    · simpa [TransmitterOutput.handing] using silent _ later

end Transmitter
end Libflute

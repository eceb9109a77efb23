import Libflute.TransmitterSpec

/-! What always holds of the files a transmitter has made, its queue, the sends
that are outstanding, and the call of `send` that is under way. -/

namespace Libflute

/-- The part of a transmitter that says what is sent and what is waiting. -/
structure SendQueue where
  objects : List File
  files : SortedMap Nat Nat
  socket : List InFlight
  call : List SendStep

def Transmitter.queue (t : Transmitter) : SendQueue := ⟨t.objects, t.files, t.socket, t.call⟩

/-- The file a step of `send` has still to put into the queue, with its key. -/
def SendStep.waiting : SendStep → Option (Nat × Nat)
  | .storeFdt object => some (0, object)
  | .insertFile toi object => some (toi, object)
  | _ => none

def InFlight.keys (sent : InFlight) : List (Nat × (Nat × Nat)) :=
  sent.symbols.map fun symbol => (sent.object, symbol.key)

namespace SendQueue

def waiting (q : SendQueue) : List (Nat × Nat) := q.call.filterMap SendStep.waiting

/-- The queue never names a file that is complete, and each symbol in flight is
queued in its file and in flight only once. -/
structure Sound (q : SendQueue) : Prop where
  objects : ∀ (o : Nat) (f : File), q.objects[o]? = some f → f.Sound ∧ f.entry.toi < 2 ^ 16
  flight : ∀ sent ∈ q.socket, ∃ f, q.objects[sent.object]? = some f ∧
    ∀ symbol ∈ sent.symbols, f.Queued symbol.key
  distinct : (q.socket.flatMap InFlight.keys).Nodup
  files : ∀ k o, q.files.find? k = some o →
    ∃ f, q.objects[o]? = some f ∧ f.entry.toi = k ∧ f.complete = false
  waiting : ∀ k o, (k, o) ∈ q.waiting →
    (∃ f, q.objects[o]? = some f ∧ f.entry.toi = k ∧ f.complete = false) ∧
    (∀ j, q.files.find? j ≠ some o) ∧ ∀ sent ∈ q.socket, sent.object ≠ o
  waitingDistinct : (q.waiting.map Prod.snd).Nodup

variable {q : SendQueue} {env : Env}

theorem Sound.of_sublist (sound : q.Sound) {call : List SendStep}
    (fewer : (call.filterMap SendStep.waiting).Sublist q.waiting) : ({ q with call := call } : SendQueue).Sound where
  objects := sound.objects
  flight := sound.flight
  distinct := sound.distinct
  files := sound.files
  waiting := fun k o member => sound.waiting k o (fewer.subset member)
  waitingDistinct := sound.waitingDistinct.sublist (fewer.map Prod.snd)

theorem getElem?_append_old {news : List File} {o : Nat} {f : File} (old : q.objects[o]? = some f) :
    (q.objects ++ news)[o]? = some f := by
  rw [List.getElem?_append_left (List.getElem?_eq_some_iff.mp old).1, old]

/-- New files may be made, and stand in line to be put into the queue. -/
theorem Sound.make (sound : q.Sound) (news : List File) (call : List SendStep)
    (fresh : ∀ f ∈ news, f.Sound ∧ f.entry.toi < 2 ^ 16 ∧ f.complete = false)
    (standing : ∀ k o, (k, o) ∈ call.filterMap SendStep.waiting → (k, o) ∈ q.waiting ∨
      q.objects.length ≤ o ∧ ∃ f, (q.objects ++ news)[o]? = some f ∧ f.entry.toi = k)
    (distinct : ((call.filterMap SendStep.waiting).map Prod.snd).Nodup) :
    ({ q with objects := q.objects ++ news, call := call } : SendQueue).Sound where
  objects := by
    intro o f found
    by_cases old : o < q.objects.length
    · rw [List.getElem?_append_left old] at found
      exact sound.objects o f found
    · rw [List.getElem?_append_right (by omega)] at found
      have member := fresh f (List.mem_of_getElem? found)
      exact ⟨member.1, member.2.1⟩
  flight := by
    intro sent member
    obtain ⟨f, found, queued⟩ := sound.flight sent member
    exact ⟨f, getElem?_append_old found, queued⟩
  distinct := sound.distinct
  files := by
    intro k o stored
    obtain ⟨f, found, rest⟩ := sound.files k o stored
    exact ⟨f, getElem?_append_old found, rest⟩
  waiting := by
    intro k o member
    rcases standing k o member with before | ⟨later, f, found, toi⟩
    · obtain ⟨⟨f, found, rest⟩, apart⟩ := sound.waiting k o before
      exact ⟨⟨f, getElem?_append_old found, rest⟩, apart⟩
    · refine ⟨⟨f, found, toi, ?_⟩, fun j stored => ?_, fun sent inSocket same => ?_⟩
      · rw [List.getElem?_append_right later] at found
        exact (fresh f (List.mem_of_getElem? found)).2.2
      · obtain ⟨_, old, _⟩ := sound.files j o stored
        have inside := (List.getElem?_eq_some_iff.mp old).1
        omega
      · obtain ⟨_, old, _⟩ := sound.flight sent inSocket
        have inside := (List.getElem?_eq_some_iff.mp old).1
        omega
  waitingDistinct := distinct

/-- Putting a file into the queue under its TOI. -/
theorem Sound.store (sound : q.Sound) {files : SortedMap Nat Nat} {k o : Nat}
    (stored : ∀ j p, files.find? j = some p → (j, p) = (k, o) ∨ q.files.find? j = some p)
    (ready : ∃ f, q.objects[o]? = some f ∧ f.entry.toi = k ∧ f.complete = false)
    (absent : o ∉ q.waiting.map Prod.snd) : ({ q with files := files } : SendQueue).Sound where
  objects := sound.objects
  flight := sound.flight
  distinct := sound.distinct
  files := by
    intro j p found
    rcases stored j p found with same | before
    · obtain ⟨rfl, rfl⟩ := Prod.mk.inj same
      exact ready
    · exact sound.files j p before
  waiting := by
    intro j p member
    obtain ⟨made, unlisted, idle⟩ := sound.waiting j p member
    refine ⟨made, fun i found => ?_, idle⟩
    rcases stored i p found with same | before
    · obtain ⟨rfl, rfl⟩ := Prod.mk.inj same
      exact absent (List.mem_map_of_mem member)
    · exact unlisted i before
  waitingDistinct := sound.waitingDistinct

/-- The step of `send` that puts a waiting file into the queue. -/
theorem Sound.storeWaiting (sound : q.Sound) {files : SortedMap Nat Nat} {step : SendStep}
    {rest : List SendStep} {k o : Nat} (call : q.call = step :: rest) (wait : step.waiting = some (k, o))
    (stored : ∀ j p, files.find? j = some p → (j, p) = (k, o) ∨ q.files.find? j = some p) :
    ({ q with files := files, call := rest } : SendQueue).Sound := by
  have list : q.waiting = (k, o) :: rest.filterMap SendStep.waiting := by
    rw [SendQueue.waiting, call, List.filterMap_cons_some wait]
  have distinct := sound.waitingDistinct
  rw [list, List.map_cons, List.nodup_cons] at distinct
  obtain ⟨ready, _⟩ := sound.waiting k o (by simp [list])
  have shorter : (rest.filterMap SendStep.waiting).Sublist q.waiting := by
    rw [list]
    exact List.sublist_cons_self _ _
  exact (sound.of_sublist shorter).store stored ready distinct.1

theorem getElem?_set_object {f : File} {o : Nat} (found : q.objects[o]? = some f) (g : File) (p : Nat) :
    (q.objects.set o g)[p]? = if p = o then some g else q.objects[p]? := by
  rw [List.getElem?_set]
  by_cases here : p = o
  · rw [if_pos here.symm, if_pos here, if_pos (List.getElem?_eq_some_iff.mp found).1]
  · rw [if_neg (Ne.symm here), if_neg here]

/-- Handing symbols of a file in the queue to the socket. -/
theorem Sound.hand (sound : q.Sound) {k o : Nat} {f g : File} {symbols : List EncodingSymbol}
    (listed : q.files.find? k = some o) (found : q.objects[o]? = some f) (taken : File.Taken f g symbols) :
    ({ q with objects := q.objects.set o g, socket := q.socket ++ [⟨o, symbols⟩] } : SendQueue).Sound where
  objects := by
    intro p h here
    rw [getElem?_set_object found] at here
    split at here
    · obtain rfl := Option.some.inj here
      exact ⟨taken.sound, taken.entry ▸ (sound.objects o f found).2⟩
    · exact sound.objects p h here
  flight := by
    intro sent member
    simp only [getElem?_set_object found]
    rcases List.mem_append.mp member with old | new
    · obtain ⟨h, here, queued⟩ := sound.flight sent old
      split
      · next same =>
        rw [same, found] at here
        obtain rfl := Option.some.inj here
        exact ⟨g, rfl, fun symbol inFlight => (taken.queued _).mpr (Or.inl (queued symbol inFlight))⟩
      · exact ⟨h, here, queued⟩
    · obtain rfl := List.mem_singleton.mp new
      rw [if_pos rfl]
      exact ⟨g, rfl, fun symbol inFlight => (taken.queued _).mpr (Or.inr (List.mem_map_of_mem inFlight))⟩
  distinct := by
    rw [List.flatMap_append, List.nodup_append]
    refine ⟨sound.distinct, ?_, ?_⟩
    · have keys : [InFlight.mk o symbols].flatMap InFlight.keys =
          (symbols.map EncodingSymbol.key).map (Prod.mk o) := by
        simp [InFlight.keys, Function.comp_def]
      rw [keys]
      exact taken.distinct.map (Prod.mk_right_injective o)
    · rintro x old _ new rfl
      obtain ⟨sent, inSocket, inSent⟩ := List.mem_flatMap.mp old
      obtain ⟨oldSymbol, inFlight, rfl⟩ := List.mem_map.mp inSent
      obtain ⟨symbol, isNew, same⟩ := List.mem_map.mp (show _ ∈ InFlight.keys ⟨o, symbols⟩ by simpa using new)
      obtain ⟨sameObject, sameKey⟩ := Prod.mk.inj same
      obtain ⟨h, here, queued⟩ := sound.flight sent inSocket
      rw [← sameObject, show q.objects[(InFlight.mk o symbols).object]? = _ from found] at here
      obtain rfl := Option.some.inj here
      obtain ⟨placed, fresh, rfl⟩ := taken.fresh symbol isNew
      obtain ⟨atKey, _, unqueued⟩ := File.symbol?_of_mem_unsent fresh
      obtain ⟨again, there, isQueued⟩ := queued oldSymbol inFlight
      rw [← sameKey] at there
      obtain rfl : placed.symbol = again := Option.some.inj (atKey.symm.trans there)
      rw [unqueued] at isQueued
      exact absurd isQueued (by simp)
  files := by
    intro j p stored
    obtain ⟨h, here, toi, incomplete⟩ := sound.files j p stored
    simp only [getElem?_set_object found]
    split
    · next same =>
      rw [same, found] at here
      obtain rfl := Option.some.inj here
      exact ⟨g, rfl, taken.entry ▸ toi, taken.complete.trans incomplete⟩
    · exact ⟨h, here, toi, incomplete⟩
  waiting := by
    intro j p member
    obtain ⟨⟨h, here, rest⟩, unlisted, idle⟩ := sound.waiting j p member
    have other : p ≠ o := fun same => unlisted k (same ▸ listed)
    refine ⟨⟨h, by rw [getElem?_set_object found, if_neg other]; exact here, rest⟩, unlisted, ?_⟩
    intro sent inSocket
    rcases List.mem_append.mp inSocket with old | new
    · exact idle sent old
    · obtain rfl := List.mem_singleton.mp new
      exact Ne.symm other
  waitingDistinct := sound.waitingDistinct

/-- A send that failed is no longer outstanding. -/
theorem Sound.fail (sound : q.Sound) (index : Nat) :
    ({ q with socket := q.socket.eraseIdx index } : SendQueue).Sound where
  objects := sound.objects
  flight := fun sent member => sound.flight sent (List.mem_of_mem_eraseIdx member)
  distinct := sound.distinct.sublist ((List.eraseIdx_sublist _ _).flatMap _)
  files := sound.files
  waiting := fun k o member => by
    obtain ⟨made, unlisted, idle⟩ := sound.waiting k o member
    exact ⟨made, unlisted, fun sent inSocket => idle sent (List.mem_of_mem_eraseIdx inSocket)⟩
  waitingDistinct := sound.waitingDistinct

/-- Symbols of a completed send are in flight nowhere else. -/
theorem Sound.not_in_rest (sound : q.Sound) {index : Nat} {sent other : InFlight}
    (here : q.socket[index]? = some sent) (later : other ∈ q.socket.eraseIdx index)
    (same : other.object = sent.object) {symbol : EncodingSymbol} (member : symbol ∈ other.symbols) :
    symbol.key ∉ sent.symbols.map EncodingSymbol.key := by
  intro listed
  obtain ⟨inside, is⟩ := List.getElem?_eq_some_iff.mp here
  have perm := List.getElem_cons_eraseIdx_perm inside
  rw [is] at perm
  have distinct := (perm.flatMap_right InFlight.keys).nodup_iff.mpr sound.distinct
  rw [List.flatMap_cons, List.nodup_append] at distinct
  obtain ⟨mine, isMine, sameKey⟩ := List.mem_map.mp listed
  refine distinct.2.2 (sent.object, symbol.key) ?_ (sent.object, symbol.key) ?_ rfl
  · exact List.mem_map.mpr ⟨mine, isMine, by rw [sameKey]⟩
  · exact List.mem_flatMap.mpr ⟨other, later, List.mem_map.mpr ⟨symbol, member, by rw [same]⟩⟩

/-- Marking the symbols of a completed send; a file that is complete then leaves
the queue. -/
theorem Sound.mark (sound : q.Sound) {index : Nat} {sent : InFlight} {f g : File} {files : SortedMap Nat Nat}
    (here : q.socket[index]? = some sent) (found : q.objects[sent.object]? = some f)
    (marked : File.Marked env f g (sent.symbols.map EncodingSymbol.key))
    (left : ∀ k o, files.find? k = some o →
      q.files.find? k = some o ∧ (o = sent.object → g.complete = false)) :
    ({ q with
      objects := q.objects.set sent.object g
      files := files
      socket := q.socket.eraseIdx index } : SendQueue).Sound where
  objects := by
    intro p h there
    rw [getElem?_set_object found] at there
    split at there
    · obtain rfl := Option.some.inj there
      exact ⟨marked.sound, marked.entry ▸ (sound.objects _ f found).2⟩
    · exact sound.objects p h there
  flight := by
    intro other member
    obtain ⟨h, there, queued⟩ := sound.flight other (List.mem_of_mem_eraseIdx member)
    simp only [getElem?_set_object found]
    split
    · next same =>
      rw [same, found] at there
      obtain rfl := Option.some.inj there
      exact ⟨g, rfl, fun symbol inFlight => (marked.queued _).mpr
        ⟨queued symbol inFlight, sound.not_in_rest here member same inFlight⟩⟩
    · exact ⟨h, there, queued⟩
  distinct := (sound.fail index).distinct
  files := by
    intro k o stored
    obtain ⟨before, open'⟩ := left k o stored
    obtain ⟨h, there, toi, incomplete⟩ := sound.files k o before
    simp only [getElem?_set_object found]
    split
    · next same =>
      rw [same, found] at there
      obtain rfl := Option.some.inj there
      exact ⟨g, rfl, marked.entry ▸ toi, open' same⟩
    · exact ⟨h, there, toi, incomplete⟩
  waiting := by
    intro k o member
    obtain ⟨⟨h, there, rest⟩, unlisted, idle⟩ := sound.waiting k o member
    have other : o ≠ sent.object := fun same => idle sent (List.mem_of_getElem? here) same.symm
    refine ⟨⟨h, by rw [getElem?_set_object found, if_neg other]; exact there, rest⟩, ?_,
      fun later inSocket => idle later (List.mem_of_mem_eraseIdx inSocket)⟩
    exact fun j stored => unlisted j (left j o stored).1
  waitingDistinct := sound.waitingDistinct

end SendQueue
end Libflute

import Libflute.TransmitterObjects

/-! What is queued, complete or reported as sent has been handed to the socket. -/

namespace Libflute

/-- Some packet handed to the socket was made of this symbol of the file `o`, among others. -/
def HandedIn (log : List TransmitterOutput) (o : Nat) (key : Nat × Nat) : Prop :=
  ∃ toi fecOti symbols packet datagram,
    TransmitterOutput.handed o toi fecOti symbols packet datagram ∈ log ∧ key ∈ symbols.map EncodingSymbol.key

theorem HandedIn.append {log : List TransmitterOutput} {o : Nat} {key : Nat × Nat} (handed : HandedIn log o key)
    (out : List TransmitterOutput) : HandedIn (log ++ out) o key := by
  obtain ⟨toi, fecOti, symbols, packet, datagram, member, inSymbols⟩ := handed
  exact ⟨toi, fecOti, symbols, packet, datagram, List.mem_append_left _ member, inSymbols⟩

theorem HandedIn.last (log : List TransmitterOutput) {o toi : Nat} {fecOti : FecOti}
    {symbols : List EncodingSymbol} {packet datagram : List UInt8} {key : Nat × Nat}
    (member : key ∈ symbols.map EncodingSymbol.key) :
    HandedIn (log ++ [.handed o toi fecOti symbols packet datagram]) o key :=
  ⟨toi, fecOti, symbols, packet, datagram, by simp, member⟩

namespace Transmitter
variable {env : Env} {t t' : Transmitter} {e : TransmitterEvent} {log out : List TransmitterOutput} {o : Nat}

/-- Symbols are marked as complete only when their send has completed. -/
theorem Effect.marked_seen (effect : Effect env t e t' out) {symbols : List EncodingSymbol}
    (member : TransmitterOutput.marked o symbols ∈ out) : ⟨o, symbols⟩ ∈ t.socket := by
  have mark : ∀ {index : Nat} {sent : InFlight}, t.socket[index]? = some sent →
      o = sent.object → symbols = sent.symbols → ⟨o, symbols⟩ ∈ t.socket := by
    rintro index sent here rfl rfl
    exact List.mem_of_getElem? here
  cases effect with
  | marked here =>
    simp only [List.mem_singleton, TransmitterOutput.marked.injEq] at member
    exact mark here member.1 member.2
  | finishedFdt here =>
    simp only [List.mem_cons, TransmitterOutput.marked.injEq, reduceCtorEq, List.not_mem_nil, or_false] at member
    exact mark here member.1 member.2
  | finished here _ _ _ _ _ seen =>
    rcases seen with rfl | rfl | ⟨what, rfl⟩ <;>
      simp only [List.mem_cons, TransmitterOutput.marked.injEq, reduceCtorEq, List.not_mem_nil, or_false] at member <;>
      exact mark here member.1 member.2
  | finishedStored here _ _ _ _ _ _ seen =>
    rcases seen with rfl | rfl <;>
      simp only [List.mem_cons, TransmitterOutput.marked.injEq, reduceCtorEq, List.not_mem_nil, or_false] at member <;>
      exact mark here member.1 member.2
  | _ => simp at member

/-- The completion callback fires for a file that is complete. -/
theorem Effect.transmitted (effect : Effect env t e t' out) {toi : Nat}
    (member : TransmitterOutput.transmitted o toi ∈ out) :
    ∃ f, t'.object? o = some f ∧ f.Sound ∧ f.complete = true ∧ toi = f.entry.toi := by
  cases effect with
  | @finished index now sent f g table seen here object marked complete data same ends =>
    have last : o = sent.object ∧ toi = f.entry.toi := by
      rcases ends with rfl | rfl | ⟨what, rfl⟩ <;> simp_all
    obtain ⟨rfl, rfl⟩ := last
    refine ⟨g, ?_, marked.sound, complete, by rw [marked.entry]⟩
    exact (SendQueue.getElem?_set_object (q := t.queue) object g _).trans (if_pos rfl)
  | @finishedStored index now sent f g table fdtFile seen here object marked complete data same isFdt ends =>
    have last : o = sent.object ∧ toi = f.entry.toi := by
      rcases ends with rfl | rfl <;> simp_all
    obtain ⟨rfl, rfl⟩ := last
    refine ⟨g, ?_, marked.sound, complete, by rw [marked.entry]⟩
    exact SendQueue.getElem?_append_old (q := { t.queue with objects := t.objects.set sent.object g })
      ((SendQueue.getElem?_set_object (q := t.queue) object g _).trans (if_pos rfl))
  | _ => simp at member

/-- What is known from the log of a run about the files of the transmitter. -/
structure Recorded (t : Transmitter) (log : List TransmitterOutput) : Prop where
  handed : ∀ o toi fecOti symbols packet datagram, .handed o toi fecOti symbols packet datagram ∈ log →
    ∃ f, t.object? o = some f ∧ toi = f.entry.toi ∧ fecOti = f.fecOti
  flight : ∀ sent ∈ t.socket, ∀ symbol ∈ sent.symbols, HandedIn log sent.object symbol.key
  queued : ∀ o f key, t.object? o = some f → f.Queued key ∨ f.Done key → HandedIn log o key
  marked : ∀ o symbols, .marked o symbols ∈ log → ∃ f, t.object? o = some f ∧
    ∀ symbol ∈ symbols, HandedIn log o symbol.key
  transmitted : ∀ o toi, .transmitted o toi ∈ log → ∃ f, t.object? o = some f ∧ toi = f.entry.toi ∧
    ∀ key, f.Holds key → HandedIn log o key

theorem recorded_start (none : t.objects = []) (idle : t.socket = []) : t.Recorded [] where
  handed := by simp
  flight := by simp [idle]
  queued := by simp [object?, none]
  marked := by simp
  transmitted := by simp

theorem Recorded.step (recorded : t.Recorded log) (sound : t.queue.Sound) (effect : Effect env t e t' out) :
    t'.Recorded (log ++ out) := by
  have traffic := effect.traffic sound
  have queued : ∀ o f key, t'.object? o = some f → f.Queued key ∨ f.Done key → HandedIn (log ++ out) o key := by
    intro o g key found known
    cases traffic.object found with
    | same before => exact (recorded.queued o g key before known).append out
    | made none made =>
      rcases known with queued | done
      · exact absurd queued (made.new.idle key)
      · exact absurd done (made.new.undone key)
    | @taken _ f n packet before taken =>
      have cases : (f.Queued key ∨ f.Done key) ∨
          key ∈ ((f.unsent.take n).map f.encoded).map EncodingSymbol.key := by
        rcases known with queued | done
        · exact ((taken.queued key).mp queued).imp_left Or.inl
        · exact Or.inl (Or.inr ((taken.done key).mp done))
      rcases cases with old | new
      · exact (recorded.queued o f key before old).append _
      · exact HandedIn.last log new
    | @marked index sent now f _ here same before marked =>
      have cases : (f.Queued key ∨ f.Done key) ∨ key ∈ sent.symbols.map EncodingSymbol.key := by
        rcases known with queued | done
        · exact Or.inl (Or.inl ((marked.queued key).mp queued).1)
        · exact (marked.done key done).imp_left Or.inr
      rcases cases with old | new
      · exact (recorded.queued o f key before old).append out
      · obtain ⟨symbol, member, rfl⟩ := List.mem_map.mp new
        exact same ▸ (recorded.flight sent (List.mem_of_getElem? here) symbol member).append out
  refine ⟨?_, ?_, queued, ?_, ?_⟩
  · intro o toi fecOti symbols packet datagram member
    rcases List.mem_append.mp member with old | new
    · obtain ⟨f, found, rfl, rfl⟩ := recorded.handed o _ _ _ _ _ old
      obtain ⟨g, now, later⟩ := traffic.later found
      exact ⟨g, now, by rw [later.entry], by rw [later.fecOti]⟩
    · obtain ⟨s, k, f, n, _, _, found, rfl, rfl, _⟩ := traffic.handed_seen new
      obtain ⟨g, now, later⟩ := traffic.later found
      exact ⟨g, now, by rw [later.entry], by rw [later.fecOti]⟩
  · intro sent member symbol inSent
    rcases traffic.socket member with old | ⟨f, packet, _, rfl⟩
    · exact (recorded.flight sent old symbol inSent).append out
    · exact HandedIn.last log (List.mem_map_of_mem inSent)
  · intro o symbols member
    have before : ∃ f, t.object? o = some f ∧ ∀ symbol ∈ symbols, HandedIn log o symbol.key := by
      rcases List.mem_append.mp member with old | new
      · exact recorded.marked o symbols old
      · obtain ⟨f, found, _⟩ := sound.flight _ (effect.marked_seen new)
        exact ⟨f, found, recorded.flight _ (effect.marked_seen new)⟩
    obtain ⟨f, found, handed⟩ := before
    obtain ⟨g, now, _⟩ := traffic.later found
    exact ⟨g, now, fun symbol inMarked => (handed symbol inMarked).append out⟩
  · intro o toi member
    rcases List.mem_append.mp member with old | new
    · obtain ⟨f, found, rfl, all⟩ := recorded.transmitted o toi old
      obtain ⟨g, now, later⟩ := traffic.later found
      exact ⟨g, now, by rw [later.entry], fun key held => (all key (later.holds_iff.mp held)).append out⟩
    · obtain ⟨f, found, fileSound, complete, rfl⟩ := effect.transmitted new
      exact ⟨f, found, rfl, fun key held => queued o f key found (Or.inr (fileSound.done_of_complete complete held))⟩

/-- In every run, what is queued, complete or reported has been handed over. -/
theorem reach_recorded {guard : Transmitter → List TransmitterOutput → TransmitterEvent → Prop}
    (reach : (transmitter env).Reach guard t log) : t.Recorded log := by
  have both : t.queue.Sound ∧ t.Recorded log := by
    refine reach.invariant (I := fun t log => t.queue.Sound ∧ t.Recorded log) ?_ ?_
    · rintro s ⟨_, _, _, _, _, _, _, _, _, rfl⟩
      exact ⟨sound_create .., recorded_start rfl rfl⟩
    · rintro s log e s' out ⟨sound, recorded⟩ _ run
      have effect := step_effect sound run
      exact ⟨effect.sound sound, recorded.step sound effect⟩
  exact both.2

end Transmitter
end Libflute

import Libflute.Receiver
import Libflute.Reception

/-! What the parts of the receiver's handler do. -/

namespace Libflute

namespace HandlerResult
variable {result : HandlerResult} {rest : Receiver → HandlerResult}

theorem andThen_of_ok (ends : result.ending = .ok ()) : result.andThen rest =
    { rest result.state with seen := result.seen ++ (rest result.state).seen } := by
  rw [andThen, ends]

theorem andThen_of_error {e : Abort} (fails : result.ending = .error e) : result.andThen rest = result := by
  rw [andThen, fails]

/-- What holds of the state where a part of the handler stops, and where the rest
of it stops, holds of the state where both stop. -/
theorem andThen_state {P : Receiver → Prop} (first : P result.state)
    (later : result.ending = .ok () → P (rest result.state).state) : P (result.andThen rest).state := by
  cases ending : result.ending with
  | error e => rwa [andThen_of_error ending]
  | ok _ =>
    rw [andThen_of_ok ending]
    exact later ending

theorem mem_andThen_seen {output : ReceiverOutput} : output ∈ (result.andThen rest).seen ↔
    output ∈ result.seen ∨ result.ending = .ok () ∧ output ∈ (rest result.state).seen := by
  cases ending : result.ending with
  | error e => simp [andThen_of_error ending]
  | ok _ => simp [andThen_of_ok ending]

end HandlerResult

namespace File
variable {env : Env}

@[simp] theorem setBlock_entry (f : File) (n : Nat) (block : SourceBlock) : (f.setBlock n block).entry = f.entry := rfl

theorem checkFileCompletion_entry (f : File) : (f.checkFileCompletion env).1.entry = f.entry := by
  rcases checkDigest_fst env { f with complete := f.sourceBlocks.all SourceBlock.complete } with same | reset
  · rw [checkFileCompletion, same]
  · rw [checkFileCompletion, reset]
    rfl

/-- What `put_symbol` changes: slots and the flags of the file, and the bytes of its buffer. -/
theorem putSymbol_entry (env : Env) (f : File) (symbol : EncodingSymbol) : (f.putSymbol env symbol).1.entry = f.entry := by
  unfold putSymbol
  split
  · rfl
  · dsimp only
    split
    · rfl
    · split
      · rfl
      · split
        · rfl
        · exact checkFileCompletion_entry _

theorem putSymbols_entry (env : Env) (f : File) (symbols : List EncodingSymbol) :
    (f.putSymbols env symbols).1.entry = f.entry := by
  induction symbols generalizing f with
  | nil => rfl
  | cons symbol rest ih =>
    rw [putSymbols]
    have one := putSymbol_entry env f symbol
    split
    · next g run =>
      rw [run] at one
      exact (ih g).trans one
    · next g e run =>
      rw [run] at one
      exact one

theorem ofEntry_entry {entry : FileEntry} {f : File} (run : ofEntry env entry = .ok f) : f.entry = entry := by
  unfold ofEntry at run
  split at run
  · obtain ⟨blocks, _, rfl⟩ := withBlocks_eq_ok.mp run
    rfl
  · cases run

end File

namespace Receiver
variable {env : Env} {r : Receiver}

theorem find?_setFile (r : Receiver) (toi other : Nat) (f : File) :
    (r.setFile toi f).files.find? other = if other = toi then some f else r.files.find? other :=
  SortedMap.find?_insertOrAssign _ _ _ _

theorem find?_eraseFile (r : Receiver) (toi other : Nat) :
    (r.eraseFile toi).files.find? other = if other = toi then none else r.files.find? other :=
  SortedMap.find?_erase _ _ _

/-- Files that are held stay when a table is gone through. -/
theorem startFiles_kept {entries : List FileEntry} {toi : Nat} {f : File} (held : r.files.find? toi = some f) :
    (startFiles env r entries).state.files.find? toi = some f := by
  induction entries generalizing r with
  | nil => exact held
  | cons fe rest ih =>
    rw [startFiles]
    split
    · exact ih held
    · next absent =>
      split
      · exact held
      · refine HandlerResult.andThen_state (P := fun r => r.files.find? toi = some f) ?_ fun _ => ih ?_ <;>
        · have other : toi ≠ fe.toi := by
            rintro rfl
            exact absent (SortedMap.contains_eq_true.mpr ⟨f, held⟩)
          change (r.files.insert fe.toi _).find? toi = some f
          rw [SortedMap.find?_insert, if_neg other, held]

/-- A listed file that is not held yet is made from its entry. -/
theorem startFiles_fresh {entries : List FileEntry} (distinct : (entries.map FileEntry.toi).Nodup)
    (ends : (startFiles env r entries).ending = .ok ()) {fe : FileEntry} (listed : fe ∈ entries)
    (absent : r.files.find? fe.toi = none) :
    ∃ f, File.ofEntry env fe = .ok f ∧ (startFiles env r entries).state.files.find? fe.toi = some f := by
  induction entries generalizing r with
  | nil => cases listed
  | cons first rest ih =>
    rw [List.map_cons, List.nodup_cons] at distinct
    rw [startFiles] at ends ⊢
    rcases List.mem_cons.mp listed with rfl | later
    · rw [if_neg (by simp [SortedMap.contains, absent])] at ends ⊢
      cases made : File.ofEntry env fe with
      | error e =>
        rw [made] at ends
        cases ends
      | ok f =>
        simp only [made] at ends ⊢
        rw [HandlerResult.andThen_of_ok rfl]
        exact ⟨f, rfl, startFiles_kept (by
          change (r.files.insert fe.toi f).find? fe.toi = some f
          rw [SortedMap.find?_insert, if_pos rfl, absent]
          rfl)⟩
    · have other : fe.toi ≠ first.toi := fun same => distinct.1 (same ▸ List.mem_map_of_mem later)
      split at ends
      · next held =>
        rw [if_pos held]
        exact ih distinct.2 ends later absent
      · next new =>
        rw [if_neg new]
        cases made : File.ofEntry env first with
        | error e =>
          rw [made] at ends
          cases ends
        | ok f =>
          simp only [made] at ends ⊢
          rw [HandlerResult.andThen_of_ok rfl] at ends ⊢
          refine ih distinct.2 ends later ?_
          change (r.files.insert first.toi f).find? fe.toi = none
          rw [SortedMap.find?_insert, if_neg other, absent]

/-- A packet whose symbols were put into its file. -/
structure Stores (env : Env) (r : Receiver) (alc : AlcPacket) (len : Nat) (before after : File)
    (symbols : List EncodingSymbol) (stored : Outcome Unit) : Prop where
  found : r.files.find? alc.toi = some before
  incomplete : before.complete = false
  payload : EncodingSymbol.fromPayload (r.data.drop alc.headerLength) (subSize len alc.headerLength)
    before.fecOti alc.contentEncoding = .ok symbols
  put : before.putSymbols env symbols = (after, stored)

theorem startFdt_cases (env : Env) (r : Receiver) (alc : AlcPacket) :
    (∃ ending, startFdt env r alc = { state := r, ending := ending }) ∨
      ∃ f, alc.toi = 0 ∧ (∀ table, r.fdt = some table → table.instanceId ≠ alc.fdtInstanceId) ∧
        r.files.find? 0 = none ∧
        File.ofEntry env { contentLength := toU32 alc.fecOti.transferLength, fecOti := alc.fecOti } = .ok f ∧
        startFdt env r alc = {
          state := { r with files := r.files.insert 0 f }
          seen := [.created alc.fecOti alc.fdtInstanceId] } := by
  unfold startFdt
  split
  · next new =>
    obtain ⟨toi, other, absent⟩ := new
    split
    · exact Or.inl ⟨_, rfl⟩
    · next f made =>
      refine Or.inr ⟨f, toi, fun table held => ?_, SortedMap.contains_eq_false.mp absent, made, rfl⟩
      rw [held, Option.all_some, decide_eq_true_eq] at other
      exact other
  · exact Or.inl ⟨_, rfl⟩

theorem startFdt_error {alc : AlcPacket} {e : Abort} (fails : (startFdt env r alc).ending = .error e) :
    (startFdt env r alc).state.files.find? alc.toi = none := by
  unfold startFdt at fails ⊢
  split at fails
  · next new =>
    rw [if_pos new]
    split at fails
    · obtain ⟨toi, _, absent⟩ := new
      rw [toi]
      exact SortedMap.contains_eq_false.mp absent
    · cases fails
  · cases fails

theorem receiveSymbols_cases (env : Env) (r : Receiver) (alc : AlcPacket) (len : Nat) :
    (∃ ending, receiveSymbols env r alc len = { state := r, ending := ending }) ∨
      ∃ before after symbols stored, Stores env r alc len before after symbols stored ∧
        receiveSymbols env r alc len = HandlerResult.andThen {
          state := r.setFile alc.toi after
          seen := [.put alc.toi alc.fdtInstanceId symbols]
          ending := stored } fun r =>
            if after.complete then completeFile env r alc.toi alc.fdtInstanceId after else { state := r } := by
  unfold receiveSymbols
  split
  · exact Or.inl ⟨_, rfl⟩
  · next before found =>
    split
    · exact Or.inl ⟨_, rfl⟩
    · next incomplete =>
      split
      · exact Or.inl ⟨_, rfl⟩
      · next symbols payload =>
        cases put : before.putSymbols env symbols with
        | mk after stored =>
          exact Or.inr ⟨before, after, symbols, stored,
            ⟨found, by simpa using incomplete, payload, put⟩, rfl⟩

theorem Stores.entry {alc : AlcPacket} {len : Nat} {before after : File} {symbols : List EncodingSymbol}
    {stored : Outcome Unit} (stores : Stores env r alc len before after symbols stored) :
    after.entry = before.entry := by
  have same := File.putSymbols_entry env before symbols
  rwa [stores.put] at same

/-- The handler ends where its `try` block does, but for the receive it starts. -/
theorem handleReceiveFrom_cases (env : Env) (r : Receiver) (datagram : List UInt8) :
    r.running = false ∧ r.handleReceiveFrom env datagram = { state := r.arrived datagram } ∨
      r.running = true ∧ ∃ armed, (r.handleReceiveFrom env datagram).state =
          { (tryBlock env (r.arrived datagram) (min maxDatagram datagram.length)).state with armed := armed } ∧
        (r.handleReceiveFrom env datagram).seen =
          (tryBlock env (r.arrived datagram) (min maxDatagram datagram.length)).seen := by
  unfold handleReceiveFrom
  dsimp only
  split
  · next running =>
    refine Or.inr ⟨running, ?_⟩
    split
    · exact ⟨true, rfl, rfl⟩
    · exact ⟨true, rfl, rfl⟩
    · exact ⟨_, rfl, rfl⟩
  · next stopped => exact Or.inl ⟨Bool.not_eq_true _ ▸ stopped, rfl⟩

theorem tryBlock_cases (env : Env) (r : Receiver) (len : Nat) :
    (∃ ending, tryBlock env r len = { state := r, ending := ending }) ∨
      ∃ alc, AlcPacket.parse r.data len = .ok alc ∧ alc.tsi = r.tsi ∧
        tryBlock env r len = handlePacket env r alc len := by
  unfold tryBlock
  split
  · exact Or.inl ⟨_, rfl⟩
  · next alc parsed =>
    split
    · next mine => exact Or.inr ⟨alc, parsed, mine, rfl⟩
    · exact Or.inl ⟨_, rfl⟩

end Receiver

theorem receiver_step_datagram {env : Env} {r r' : Receiver} {datagram : List UInt8} {out : List ReceiverOutput}
    (step : (receiver env).step r (.datagram datagram) = some (r', out)) :
    r.armed = true ∧ r' = (r.handleReceiveFrom env datagram).state ∧
      ((r.handleReceiveFrom env datagram).ending = .ok () ∧ out = (r.handleReceiveFrom env datagram).seen ∨
        ∃ what, (r.handleReceiveFrom env datagram).ending = .error (.throws what) ∧
          out = (r.handleReceiveFrom env datagram).seen ++ [.escaped what]) := by
  simp only [receiver] at step
  split at step
  · next armed =>
    split at step
    · next ending =>
      obtain ⟨rfl, rfl⟩ := Prod.mk.inj (Option.some.inj step)
      exact ⟨armed, rfl, Or.inl ⟨ending, rfl⟩⟩
    · next what ending =>
      obtain ⟨rfl, rfl⟩ := Prod.mk.inj (Option.some.inj step)
      exact ⟨armed, rfl, Or.inr ⟨what, ending, rfl⟩⟩
    · cases step
  · cases step

end Libflute

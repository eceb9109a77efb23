import Libflute.Erasing
import Libflute.InstanceIds
import Libflute.SendCalls
import Libflute.Tiling

/-! The table of the transmitter lists the files in its queue. -/

namespace Libflute

/-- The file a call of `send` has still to put into the queue, with its TOI. -/
def SendStep.inserts : SendStep → Option (Nat × Nat)
  | .insertFile toi object => some (toi, object)
  | _ => none

/-- The file a call of `send` has still to add to the table. -/
def SendStep.adds : SendStep → Option Nat
  | .addEntry object => some object
  | _ => none

def SendStep.returning : SendStep → Option (Nat × Nat)
  | .returns toi object => some (toi, object)
  | _ => none

namespace Transmitter
variable {env : Env} {t t' : Transmitter} {e : TransmitterEvent} {log out : List TransmitterOutput}

/-- There is memory for the FDT file of a table. -/
def FdtFits (env : Env) (fdt : FileDeliveryTable) (now : Nat) : Prop :=
  env.malloc ((fdt.setExpires (now + fdtRepeatInterval * 2)).print env).length = true

/-- A call of `send` that makes its file takes a TOI that no file in the queue
has, and the first overload gets the memory for the FDT file. -/
def TakesFreshToi (env : Env) (t : Transmitter) : TransmitterEvent → Prop
  | .sendData contentLocation contentType expires data now => ∀ f,
    File.ofData env t.toi.toNat t.fecOti contentLocation contentType expires data false = .ok f →
      t.files.find? t.toi.toNat = none ∧ FdtFits env (t.fdt.add f.entry) now
  | .sendDescription fd => ∀ f,
    File.ofDescription env ((fd.assign t.tsi t.toi).mergeFecOti t.fecOti t.noCode) = .ok f →
      t.files.find? (fd.assign t.tsi t.toi).entry.toi = none
  | _ => True

/-- The table lists the files in the queue, each once and as it is. -/
structure ListsQueue (t : Transmitter) : Prop where
  distinct : (t.fdt.fileEntries.map FileEntry.toi).Nodup
  keys : ∀ k, k ∈ t.fdt.fileEntries.map FileEntry.toi ↔ k ≠ 0 ∧ ∃ o, t.files.find? k = some o
  metadata : ∀ fe ∈ t.fdt.fileEntries, ∀ o f, t.files.find? fe.toi = some o → t.object? o = some f → f.entry = fe

/-- A file that was passed to `send` is in the queue under the TOI that was
returned for it, until it is complete. -/
def KeepsReturned (t : Transmitter) (log : List TransmitterOutput) : Prop :=
  ∀ toi o, .returned toi o ∈ log → toi ≠ 0 ∧ (t.files.find? toi = some o ∨ .erased o toi (some o) ∈ log)

/-- The file is in the queue, or the call of `send` will put it there. -/
def Queues (t : Transmitter) (k o : Nat) : Prop :=
  t.files.find? k = some o ∨ (k, o) ∈ t.call.filterMap SendStep.inserts

/-- The entries of the table with those that the call of `send` will add. -/
def tableToBe (t : Transmitter) : List FileEntry :=
  t.fdt.fileEntries ++ (t.call.filterMap SendStep.adds).filterMap fun o => (t.object? o).map File.entry

theorem tableToBe_idle (idle : t.call = []) : t.tableToBe = t.fdt.fileEntries := by
  rw [tableToBe, idle]
  exact List.append_nil _

theorem queues_idle (idle : t.call = []) (k o : Nat) : t.Queues k o ↔ t.files.find? k = some o := by
  rw [Queues, idle]
  exact or_iff_left (List.not_mem_nil)

/-- What holds of the table and the queue in the middle of a call of `send` as well. -/
structure Agreement (t : Transmitter) (log : List TransmitterOutput) : Prop where
  distinct : (t.tableToBe.map FileEntry.toi).Nodup
  listed : ∀ fe ∈ t.tableToBe, fe.toi ≠ 0 ∧ ∃ o f, t.Queues fe.toi o ∧ t.object? o = some f ∧ f.entry = fe
  queued : ∀ k o, k ≠ 0 → t.Queues k o → k ∈ t.tableToBe.map FileEntry.toi
  unused : ∀ k o, (k, o) ∈ t.call.filterMap SendStep.inserts → k ≠ 0 ∧ t.files.find? k = none
  returning : ∀ k o, (k, o) ∈ t.call.filterMap SendStep.returning → k ≠ 0 ∧ t.Queues k o
  returned : t.KeepsReturned log

/-- What has been returned stays true while the queue keeps its files, or erases them one by one. -/
theorem KeepsReturned.step (keeps : t.KeepsReturned log) (effect : Effect env t e t' out)
    (owned : t.SendsOwned {k | k ≠ 0})
    (quiet : ∀ k o, .returned k o ∈ out → k ≠ 0 ∧ t'.files.find? k = some o) : t'.KeepsReturned (log ++ out) := by
  intro k o member
  rcases List.mem_append.mp member with old | new
  · obtain ⟨data, listed | erased⟩ := keeps k o old
    · rcases effect.leaves owned data listed with stays | ⟨erased, _⟩ | ⟨fdt, _⟩
      · exact ⟨data, Or.inl stays⟩
      · exact ⟨data, Or.inr (List.mem_append_right _ erased)⟩
      · exact absurd fdt data
    · exact ⟨data, Or.inr (List.mem_append_left _ erased)⟩
  · exact (quiet k o new).imp_right Or.inl

/-- A step that leaves alone what the table lists and what the queue holds of the application. -/
theorem Agreement.frame (agrees : t.Agreement log) (table : t'.tableToBe = t.tableToBe)
    (queues : ∀ k, k ≠ 0 → ∀ o, t'.Queues k o ↔ t.Queues k o)
    (later : ∀ o f, t.object? o = some f → ∃ g, t'.object? o = some g ∧ f.Later g)
    (unused : ∀ k o, (k, o) ∈ t'.call.filterMap SendStep.inserts → k ≠ 0 ∧ t'.files.find? k = none)
    (returning : ∀ k o, (k, o) ∈ t'.call.filterMap SendStep.returning → k ≠ 0 ∧ t'.Queues k o)
    (returned : t'.KeepsReturned (log ++ out)) : t'.Agreement (log ++ out) where
  distinct := table ▸ agrees.distinct
  listed := by
    intro fe member
    obtain ⟨data, o, f, queued, found, is⟩ := agrees.listed fe (table ▸ member)
    obtain ⟨g, now, same⟩ := later o f found
    exact ⟨data, o, g, (queues _ data o).mpr queued, now, same.entry.trans is⟩
  queued := fun k o data queued => table ▸ agrees.queued k o data ((queues k data o).mp queued)
  unused := unused
  returning := returning
  returned := returned

/-- The same between calls of `send`. -/
theorem Agreement.frame_idle (agrees : t.Agreement log) (idle : t.call = []) (idle' : t'.call = [])
    (table : t'.fdt.fileEntries = t.fdt.fileEntries) (files : ∀ k, k ≠ 0 → t'.files.find? k = t.files.find? k)
    (later : ∀ o f, t.object? o = some f → ∃ g, t'.object? o = some g ∧ f.Later g)
    (returned : t'.KeepsReturned (log ++ out)) : t'.Agreement (log ++ out) := by
  refine agrees.frame ?_ (fun k data o => ?_) later (by simp [idle']) (by simp [idle']) returned
  · rw [tableToBe_idle idle, tableToBe_idle idle', table]
  · rw [queues_idle idle, queues_idle idle', files k data]

/-- A completed file of the application leaves the table and the queue. -/
theorem Agreement.remove (agrees : t.Agreement log) (idle : t.call = []) (idle' : t'.call = []) {gone : Nat}
    (table : t'.fdt.fileEntries = t.fdt.fileEntries.filter fun fe => fe.toi ≠ gone)
    (files : ∀ k, k ≠ 0 → t'.files.find? k = if k = gone then none else t.files.find? k)
    (later : ∀ o f, t.object? o = some f → ∃ g, t'.object? o = some g ∧ f.Later g)
    (returned : t'.KeepsReturned (log ++ out)) : t'.Agreement (log ++ out) := by
  have distinct := agrees.distinct
  have listed := agrees.listed
  have queued := agrees.queued
  rw [tableToBe_idle idle] at distinct listed queued
  constructor
  · rw [tableToBe_idle idle', table]
    exact distinct.sublist (List.filter_sublist.map _)
  · intro fe member
    rw [tableToBe_idle idle', table, List.mem_filter] at member
    obtain ⟨data, o, f, inQueue, found, is⟩ := listed fe member.1
    obtain ⟨g, now, same⟩ := later o f found
    refine ⟨data, o, g, ?_, now, same.entry.trans is⟩
    rw [queues_idle idle', files _ data, if_neg (by simpa using member.2)]
    exact (queues_idle idle _ _).mp inQueue
  · intro k o data inQueue
    rw [queues_idle idle', files k data] at inQueue
    split_ifs at inQueue with here
    obtain ⟨fe, member, is⟩ := List.mem_map.mp (queued k o data ((queues_idle idle k o).mpr inQueue))
    rw [tableToBe_idle idle', table]
    exact List.mem_map.mpr ⟨fe, List.mem_filter.mpr ⟨member, by simpa [is] using here⟩, is⟩
  · simp [idle']
  · simp [idle']
  · exact returned

/-- A call of `send` has made a file whose TOI no file in the queue has. -/
theorem Agreement.begin (agrees : t.Agreement log) (idle : t.call = []) {k o : Nat} {f : File}
    (table : t'.tableToBe = t.fdt.fileEntries ++ [f.entry]) (files : t'.files = t.files)
    (toi : f.entry.toi = k) (data : k ≠ 0) (unused : t.files.find? k = none) (object : t'.object? o = some f)
    (inserts : t'.call.filterMap SendStep.inserts = [(k, o)])
    (returning : t'.call.filterMap SendStep.returning = [(k, o)])
    (later : ∀ o f, t.object? o = some f → ∃ g, t'.object? o = some g ∧ f.Later g)
    (returned : t'.KeepsReturned (log ++ out)) : t'.Agreement (log ++ out) := by
  have queues : ∀ j p, t'.Queues j p ↔ t.files.find? j = some p ∨ (j, p) = (k, o) := by
    intro j p
    rw [Queues, files, inserts, List.mem_singleton]
  have distinct := agrees.distinct
  have listed := agrees.listed
  have queued := agrees.queued
  rw [tableToBe_idle idle] at distinct listed queued
  constructor
  · rw [table, List.map_append, List.nodup_append]
    refine ⟨distinct, by simp, ?_⟩
    rintro j old _ new rfl
    obtain ⟨fe, member, is⟩ := List.mem_map.mp old
    obtain ⟨_, p, _, inQueue, _⟩ := listed fe member
    rw [queues_idle idle, is, List.mem_singleton.mp new, toi, unused] at inQueue
    cases inQueue
  · intro fe member
    rw [table] at member
    rcases List.mem_append.mp member with old | new
    · obtain ⟨some, p, g, inQueue, found, is⟩ := listed fe old
      obtain ⟨h, now, same⟩ := later p g found
      exact ⟨some, p, h, (queues _ p).mpr (Or.inl ((queues_idle idle _ p).mp inQueue)), now, same.entry.trans is⟩
    · obtain rfl := List.mem_singleton.mp new
      exact ⟨toi ▸ data, o, f, (queues _ o).mpr (Or.inr (by rw [toi])), object, rfl⟩
  · intro j p some inQueue
    rw [table, List.map_append, List.mem_append]
    rcases (queues j p).mp inQueue with old | new
    · exact Or.inl (queued j p some ((queues_idle idle j p).mpr old))
    · obtain ⟨rfl, rfl⟩ := Prod.mk.inj new
      exact Or.inr (by simp [toi])
  · intro j p member
    rw [inserts, List.mem_singleton] at member
    obtain ⟨rfl, rfl⟩ := Prod.mk.inj member
    exact ⟨data, files ▸ unused⟩
  · intro j p member
    rw [returning, List.mem_singleton] at member
    obtain ⟨rfl, rfl⟩ := Prod.mk.inj member
    exact ⟨data, (queues _ _).mpr (Or.inr rfl)⟩
  · exact returned

theorem FdtFits.built (fits : FdtFits env t.fdt now) (what : Thrown) :
    (t.buildFdt env now).ending ≠ .error (.throws what) := by
  intro threw
  unfold buildFdt at threw
  split_ifs at threw
  dsimp only at threw
  split at threw
  · next error made =>
    obtain rfl := Except.error.inj threw
    rw [File.ofData, if_neg (by rintro ⟨_, short⟩; exact short fits), if_pos t.noCode, File.withBlocks] at made
    cases run : createBlocks _ with
    | error e =>
      rw [run] at made
      obtain rfl := createBlocks_error run
      cases made
    | ok blocks =>
      rw [run] at made
      cases made
  · cases threw

theorem startSendFdt_not_threw {s : Transmitter} {now : Nat} {rest : List SendStep} (fits : FdtFits env t.fdt now)
    (performed : s.perform env e = some (startSendFdt env t now rest)) (run : s.step env e = some (t', out))
    (what : Thrown) : .threw what ∉ out := by
  intro threw
  rcases step_ok performed run with ⟨_, _, rfl⟩ | ⟨reason, ends, _, _⟩
  · rcases startSendFdt_cases env t now rest with
      ⟨_, started⟩ | ⟨table, _, _, ⟨e, started⟩ | ⟨fdtFile, _, started⟩⟩ <;> rw [started] at threw <;> simp at threw
  · unfold startSendFdt at ends
    dsimp only at ends
    split at ends
    · next e failed =>
      obtain rfl := Except.error.inj ends
      exact fits.built reason failed
    · cases ends
    · cases ends

theorem sendData_not_threw {contentLocation contentType : String} {expires now : Nat} {data : List UInt8} {f : File}
    (made : File.ofData env t.toi.toNat t.fecOti contentLocation contentType expires data false = .ok f)
    (fits : FdtFits env (t.fdt.add f.entry) now)
    (run : t.step env (.sendData contentLocation contentType expires data now) = some (t', out))
    (what : Thrown) : .threw what ∉ out := by
  have idle : t.call = [] := by
    by_contra busy
    simp [step, perform, busy] at run
  set after : Transmitter := { t with toi := t.nextToi, objects := t.objects ++ [f], fdt := t.fdt.add f.entry }
  have performed : t.perform env (.sendData contentLocation contentType expires data now) =
      some (startSendFdt env after now
        [.insertFile t.toi.toNat t.objects.length, .returns t.toi.toNat t.objects.length]) := by
    rw [perform, if_pos idle]
    simp only [sendData, made]
    rfl
  exact startSendFdt_not_threw (t := after) fits performed run what

/-- No handler runs in the middle of a call, so none is under way in a handler. -/
theorem SendsAtomically.idle (atomic : t.SendsAtomically e) (other : ∀ now, e ≠ .continueSend now) : t.call = [] := by
  rcases atomic with idle | ⟨now, same⟩
  · exact idle
  · exact absurd same (other now)

theorem Agreement.step (agrees : t.Agreement log) (sound : t.queue.Sound) (counter : t.toi ≠ 0)
    (shape : CallShape t.call) (owned : t.SendsOwned {k | k ≠ 0}) (atomic : t.SendsAtomically e)
    (fresh : t.TakesFreshToi env e) (run : t.step env e = some (t', out)) : t'.Agreement (log ++ out) := by
  have effect := step_effect sound run
  have later := fun o f (found : t.object? o = some f) => (effect.traffic sound).later found
  have keeps := agrees.returned.step effect owned
  have data : t.toi.toNat ≠ 0 := fun none => counter (UInt16.toNat_inj.mp none)
  cases effect with
  | settings passive queue fdt =>
    have idle := atomic.idle (by rintro now rfl; cases passive)
    have call : t'.call = t.call := congrArg SendQueue.call queue
    exact agrees.frame_idle idle (call.trans idle) (by rw [fdt])
      (fun k _ => congrArg (fun q => q.files.find? k) queue) later (keeps (by simp))
  | rejected refused queue fdt =>
    have idle := atomic.idle (by rintro now rfl; cases refused)
    have call : t'.call = t.call := congrArg SendQueue.call queue
    exact agrees.frame_idle idle (call.trans idle) (by rw [fdt])
      (fun k _ => congrArg (fun q => q.files.find? k) queue) later (keeps (by simp))
  | hands is =>
    have idle := atomic.idle (by rintro now rfl; rcases is with ⟨_, same⟩ | ⟨_, same⟩ <;> cases same)
    rcases is with ⟨rfl, _⟩ | ⟨rfl, _⟩ <;>
      exact agrees.frame_idle idle idle rfl (fun _ _ => rfl) later (keeps (by simp))
  | failed =>
    have idle := atomic.idle (by simp)
    exact agrees.frame_idle idle idle rfl (fun _ _ => rfl) later (keeps (by simp))
  | marked =>
    have idle := atomic.idle (by simp)
    exact agrees.frame_idle idle idle rfl (fun _ _ => rfl) later (keeps (by simp))
  | finishedFdt =>
    have idle := atomic.idle (by simp)
    refine agrees.frame_idle idle idle rfl (fun k some => ?_) later (keeps (by simp))
    exact (SortedMap.find?_erase _ _ _).trans (if_neg some)
  | @finished _ _ sent f _ table _ _ _ _ _ _ same ends =>
    have idle := atomic.idle (by simp)
    refine agrees.remove idle idle same.fileEntries (fun k _ => SortedMap.find?_erase _ _ _) later (keeps ?_)
    rcases ends with rfl | rfl | ⟨what, rfl⟩ <;> simp
  | @finishedStored _ _ sent f _ table _ _ _ _ _ _ toi same _ ends =>
    have idle := atomic.idle (by simp)
    refine agrees.remove idle idle same.fileEntries (fun k some => ?_) later (keeps ?_)
    · rw [SortedMap.find?_insertOrAssign, if_neg some, SortedMap.find?_erase]
    · rcases ends with rfl | rfl <;> simp
  | tickFailed same =>
    have idle := atomic.idle (by simp)
    exact agrees.frame_idle idle idle same.fileEntries (fun _ _ => rfl) later (keeps (by simp))
  | ticked same =>
    have idle := atomic.idle (by simp)
    refine agrees.frame_idle idle idle same.fileEntries (fun k some => ?_) later (keeps (by simp))
    exact (SortedMap.find?_insertOrAssign _ _ _ _).trans (if_neg some)
  | @dataFailed _ _ _ _ _ f _ what idle made =>
    exact absurd (List.mem_singleton_self _) (sendData_not_threw made (fresh f made).2 run what)
  | @dataStarted _ _ _ _ _ f table fdtFile idle made same =>
    obtain ⟨_, _, _, _, _, entry⟩ := File.ofData_new made
    refine agrees.begin (f := f) idle ?_ rfl (by rw [entry]) data (fresh f made).1 ?_ rfl rfl later (keeps (by simp))
    · exact (List.append_nil _).trans same.fileEntries
    · simp [object?]
  | @described fd f toi idle made =>
    have unused := fresh f made
    have same : f.entry.toi = (fd.assign t.tsi t.toi).entry.toi := (File.ofDescription_new made).2.2.1
    have object : (t.objects ++ [f])[t.objects.length]? = some f := by simp
    refine agrees.begin (f := f) idle ?_ rfl rfl ?_ (same ▸ unused) object rfl rfl later (keeps (by simp))
    · change t.fdt.fileEntries ++ [t.objects.length].filterMap (fun o => (t.objects ++ [f])[o]?.map File.entry) = _
      rw [List.filterMap_cons_some (by rw [object]; rfl), List.filterMap_nil]
    · rw [same]
      exact fd.assign_toi_ne_zero t.tsi counter
  | @storedFdt now o rest call =>
    have inserts : t.call.filterMap SendStep.inserts = rest.filterMap SendStep.inserts := by rw [call]; rfl
    have adds : t.call.filterMap SendStep.adds = rest.filterMap SendStep.adds := by rw [call]; rfl
    have files : ∀ k, k ≠ 0 → (t.files.insertOrAssign 0 o).find? k = t.files.find? k := fun k some =>
      (SortedMap.find?_insertOrAssign _ _ _ _).trans (if_neg some)
    have queues : ∀ k, k ≠ 0 → ∀ p, ({ t with files := t.files.insertOrAssign 0 o, call := rest } :
        Transmitter).Queues k p ↔ t.Queues k p := fun k some p => by rw [Queues, Queues, files k some, inserts]
    refine agrees.frame ?_ queues later (fun k p member => ?_) (fun k p member => ?_) (keeps (by simp))
    · rw [tableToBe, tableToBe, adds]
      rfl
    · obtain ⟨some, none⟩ := agrees.unused k p (inserts ▸ member)
      exact ⟨some, (files k some).trans none⟩
    · obtain ⟨some, queued⟩ := agrees.returning k p (by rw [call]; exact member)
      exact ⟨some, (queues k some p).mpr queued⟩
  | @markedSent now rest call =>
    have inserts : t.call.filterMap SendStep.inserts = rest.filterMap SendStep.inserts := by rw [call]; rfl
    have adds : t.call.filterMap SendStep.adds = rest.filterMap SendStep.adds := by rw [call]; rfl
    have queues : ∀ k, k ≠ 0 → ∀ p, ({ t with fdt := t.fdt.sent, call := rest } : Transmitter).Queues k p ↔
        t.Queues k p := fun k some p => by rw [Queues, Queues, inserts]
    refine agrees.frame ?_ queues later (fun k p member => agrees.unused k p (inserts ▸ member))
      (fun k p member => ?_) (keeps (by simp))
    · rw [tableToBe, tableToBe, adds]
      rfl
    · obtain ⟨some, queued⟩ := agrees.returning k p (by rw [call]; exact member)
      exact ⟨some, (queues k some p).mpr queued⟩
  | @inserted now toi o rest call =>
    have last : rest.filterMap SendStep.inserts = [] := by
      rcases (call ▸ shape : CallShape _).insertFile.2 with rfl | rfl <;> rfl
    have adds : t.call.filterMap SendStep.adds = rest.filterMap SendStep.adds := by rw [call]; rfl
    have inserts : t.call.filterMap SendStep.inserts = [(toi, o)] := by
      rw [call, List.filterMap_cons_some (show SendStep.inserts (.insertFile toi o) = some (toi, o) from rfl), last]
    obtain ⟨_, unused⟩ := agrees.unused toi o (by rw [inserts]; simp)
    have queues : ∀ k p, ({ t with files := t.files.insert toi o, call := rest } : Transmitter).Queues k p ↔
        t.Queues k p := by
      intro k p
      simp only [Queues, inserts, last, SortedMap.find?_insert, List.not_mem_nil, or_false, List.mem_singleton,
        Prod.mk.injEq]
      split_ifs with here
      · simp [here, unused, eq_comm]
      · simp [here]
    refine agrees.frame ?_ (fun k _ => queues k) later (by simp [last]) (fun k p member => ?_) (keeps (by simp))
    · rw [tableToBe, tableToBe, adds]
      rfl
    · obtain ⟨some, queued⟩ := agrees.returning k p (by rw [call]; exact member)
      exact ⟨some, (queues k p).mpr queued⟩
  | @addFailed now o rest f table what call found same =>
    obtain ⟨toi, _, rfl⟩ := (call ▸ shape : CallShape _).addEntry
    refine agrees.frame ?_ (fun k _ p => ?_) later (by simp) (by simp) (keeps (by simp))
    · rw [tableToBe_idle rfl, tableToBe, call, same.fileEntries]
      simp [SendStep.adds, found]
    · rw [queues_idle rfl, Queues, call]
      simp [SendStep.inserts]
  | @added now o rest f table fdtFile call found same =>
    obtain ⟨toi, _, rfl⟩ := (call ▸ shape : CallShape _).addEntry
    refine agrees.frame ?_ (fun k _ p => ?_) later (by simp [SendStep.inserts]) (fun k p member => ?_)
      (keeps (by simp))
    · have before : t.tableToBe = t.fdt.fileEntries ++ [f.entry] := by
        rw [tableToBe, call]
        simp [SendStep.adds, found]
      rw [before]
      exact (List.append_nil _).trans same.fileEntries
    · rw [Queues, Queues, call]
      simp [SendStep.inserts]
    · obtain ⟨some, queued⟩ := agrees.returning k p (by rw [call]; exact member)
      refine ⟨some, ?_⟩
      rw [Queues, call] at queued
      exact queued
  | @returned now toi o rest call =>
    obtain rfl := (call ▸ shape : CallShape _).returns
    obtain ⟨some, queued⟩ := agrees.returning toi o (by rw [call]; exact List.mem_cons_self)
    have listed : t.files.find? toi = Option.some o := by
      rw [Queues, call] at queued
      exact queued.resolve_right (by simp [SendStep.inserts])
    refine agrees.frame ?_ (fun k _ p => ?_) later (by simp) (by simp) (keeps fun k p member => ?_)
    · rw [tableToBe_idle rfl, tableToBe, call]
      simp [SendStep.adds]
    · rw [queues_idle rfl, Queues, call]
      simp [SendStep.inserts]
    · obtain ⟨rfl, rfl⟩ := TransmitterOutput.returned.inj (List.mem_singleton.mp member)
      exact ⟨some, listed⟩

/-- In a run without interrupted calls, whose calls take TOIs that are not in
use, the table lists the queue between the calls, and every file is in the queue
under the TOI that was returned for it until it is complete. -/
theorem lists_queue (reach : (transmitter env).Reach (fun t _ e => t.SendsAtomically e ∧ t.TakesFreshToi env e) t log)
    (idle : t.call = []) : t.ListsQueue ∧ t.KeepsReturned log := by
  have invariant : (t.queue.Sound ∧ t.toi ≠ 0 ∧ CallShape t.call) ∧ t.SendsOwned {k | k ≠ 0} ∧ t.Agreement log := by
    refine reach.invariant (I := fun t log => (t.queue.Sound ∧ t.toi ≠ 0 ∧ CallShape t.call) ∧
      t.SendsOwned {k | k ≠ 0} ∧ t.Agreement log) ?_ ?_
    · rintro s ⟨_, _, _, _, _, _, _, _, _, rfl⟩
      refine ⟨⟨sound_create .., by simp [create], .nil⟩, by simp [SendsOwned, create], ?_⟩
      constructor <;> simp [tableToBe, Queues, KeepsReturned, create, FileDeliveryTable.create]
    · rintro s log e s' out ⟨⟨sound, counter, shape⟩, owned, agrees⟩ ⟨atomic, fresh⟩ run
      have effect := step_effect sound run
      exact ⟨⟨effect.sound sound, step_toi_ne_zero counter run, effect.callShape counter shape⟩,
        owned.step sound effect fun looked => absurd rfl looked,
        agrees.step sound counter shape owned atomic fresh run⟩
  obtain ⟨_, _, agrees⟩ := invariant
  have distinct := agrees.distinct
  have listed := agrees.listed
  have queued := agrees.queued
  rw [tableToBe_idle idle] at distinct listed queued
  simp only [queues_idle idle] at listed queued
  refine ⟨⟨distinct, fun k => ⟨fun member => ?_, ?_⟩, ?_⟩, agrees.returned⟩
  · obtain ⟨fe, inTable, rfl⟩ := List.mem_map.mp member
    obtain ⟨data, o, _, inQueue, _⟩ := listed fe inTable
    exact ⟨data, o, inQueue⟩
  · rintro ⟨data, o, inQueue⟩
    exact queued k o data inQueue
  · intro fe member o f inQueue found
    obtain ⟨_, p, g, inQueue', found', is⟩ := listed fe member
    obtain rfl : o = p := Option.some.inj (inQueue.symm.trans inQueue')
    obtain rfl : f = g := Option.some.inj (found.symm.trans found')
    exact is

end Transmitter

/-- No handler comes in the middle of a call. -/
def sendsAtomically (t : Transmitter) : TransmitterEvent → Bool
  | .continueSend _ => true
  | _ => t.call = []

theorem sendsAtomically_meets {t : Transmitter} {e : TransmitterEvent} (atomic : sendsAtomically t e = true) :
    t.SendsAtomically e := by
  cases e with
  | continueSend now => exact Or.inr ⟨now, rfl⟩
  | _ => exact Or.inl (of_decide_eq_true atomic)

/-- A call for data whose TOI no file in the queue has. -/
def takesFresh (t : Transmitter) : TransmitterEvent → Bool
  | .sendData .. => t.files.find? t.toi.toNat = none
  | .sendDescription _ => false
  | _ => true

theorem takesFresh_meets {t : Transmitter} {e : TransmitterEvent} (fresh : takesFresh t e = true) :
    t.TakesFreshToi (sampleEnv [] []) e := by
  cases e with
  | sendData => exact fun f made => ⟨of_decide_eq_true fresh, rfl⟩
  | sendDescription => cases fresh
  | _ => trivial

def TransmitterOutput.isReturned : TransmitterOutput → Bool
  | .returned _ _ => true
  | _ => false

/-- Two files are sent, and the FDT and the first of them completed. -/
def completingEvents : List TransmitterEvent :=
  sendEvents [97] ++ sendEvents [98] ++
    [.sendNextPacket, .socketCompleted 0 true 0, .sendNextPacket, .socketCompleted 0 true 0]

def TransmitterOutput.isErased (toi : Nat) : TransmitterOutput → Bool
  | .erased _ other _ => other == toi
  | _ => false

theorem lists_queue_completing : ∃ t log, (transmitter (sampleEnv [] [])).Reach
      (fun t _ e => t.SendsAtomically e ∧ t.TakesFreshToi (sampleEnv [] []) e) t log ∧
    t.call = [] ∧ t.fdt.fileEntries.map FileEntry.toi = [2] ∧ (log.filter TransmitterOutput.isReturned).length = 2 ∧
    log.any (TransmitterOutput.isErased 1) = true ∧ t.ListsQueue ∧ t.KeepsReturned log := by
  obtain ⟨t, log, reach, checked⟩ := Machine.exists_reach (M := transmitter (sampleEnv [] []))
    (fun t _ e => t.SendsAtomically e ∧ t.TakesFreshToi (sampleEnv [] []) e)
    (fun t e => sendsAtomically t e && takesFresh t e) (session 1500)
    completingEvents
    (fun r => r.1.call.isEmpty && decide (r.1.fdt.fileEntries.map FileEntry.toi = [2]) &&
      decide ((r.2.filter TransmitterOutput.isReturned).length = 2) && r.2.any (TransmitterOutput.isErased 1))
    (fun _ _ _ meets => ⟨sendsAtomically_meets (Bool.and_eq_true_iff.mp meets).1,
      takesFresh_meets (Bool.and_eq_true_iff.mp meets).2⟩)
    ⟨_, _, _, _, _, _, _, _, by decide, rfl⟩ (by rw [sampleEnv_eq]; decide +kernel)
  simp only [Bool.and_eq_true, List.isEmpty_iff, decide_eq_true_eq] at checked
  obtain ⟨⟨⟨idle, second⟩, returned⟩, first⟩ := checked
  exact ⟨t, log, reach, idle, second, returned, first, Transmitter.lists_queue reach idle⟩

/-- One description sent twice: the table lists its TOI twice. -/
theorem not_lists_queue : ¬ ∀ env t log, (transmitter env).Reach (fun t _ e => t.SendsAtomically e) t log →
    t.call = [] → t.ListsQueue := by
  intro claim
  obtain ⟨t, log, reach, checked⟩ := Machine.exists_reach (M := transmitter (sampleEnv [] []))
    (fun t _ e => t.SendsAtomically e) sendsAtomically (session 1500)
    [.sendDescription resent, .continueSend 0, .continueSend 0, .continueSend 0, .continueSend 0, .continueSend 0,
      .sendDescription resent, .continueSend 0, .continueSend 0, .continueSend 0, .continueSend 0, .continueSend 0]
    (fun r => r.1.call.isEmpty && !decide (r.1.fdt.fileEntries.map FileEntry.toi).Nodup)
    (fun _ _ _ => sendsAtomically_meets) ⟨_, _, _, _, _, _, _, _, by decide, rfl⟩ (by rw [sampleEnv_eq]; decide +kernel)
  simp only [Bool.and_eq_true, Bool.not_eq_true', List.isEmpty_iff, decide_eq_false_iff_not] at checked
  exact checked.2 (claim _ t log reach checked.1).distinct

end Libflute

import Libflute.AlcRoundTrip
import Libflute.Layout
import Libflute.Reporting

/-! Which table an FDT instance ID on the wire stands for. -/

namespace Libflute

/-- The instance ID that is read in the packets of an FDT file. -/
def File.wireInstanceId (f : File) : Nat := (AlcPacket.parsedHeader 0 0 f.fecOti f.fdtInstanceId).fdtInstanceId

theorem File.wireInstanceId_eq (f : File) : f.wireInstanceId = f.fdtInstanceId % 2 ^ 20 := rfl

/-- A step of the transmitter, as an observer of the application and the network records it. -/
abbrev TransmitterStep := Machine.Taken Transmitter TransmitterEvent TransmitterOutput

/-- A step in which `add` or `remove` of the table is called. -/
def changesTable (env : Env) (s : TransmitterStep) : Bool :=
  match s.event with
  | .sendData contentLocation contentType expires data _ =>
    (File.ofData env s.before.toi.toNat s.before.fecOti contentLocation contentType expires data false).isOk
  | .continueSend _ =>
    match s.before.call with
    | .addEntry _ :: _ => true
    | _ => false
  | .socketCompleted .. => s.seen.any fun
    | .erased _ toi _ => toi != 0
    | _ => false
  | _ => false

/-- A change of the table that starts a new instance of it. -/
def startsInstance (env : Env) (s : TransmitterStep) : Bool :=
  changesTable env s && s.before.fdt.instanceId == s.before.fdt.instanceIdSent

def tableChanges (env : Env) (steps : List TransmitterStep) : Nat := steps.countP (changesTable env)

def newInstances (env : Env) (steps : List TransmitterStep) : Nat := steps.countP (startsInstance env)

/-- Two FDT files that were put into the queue, with an accepted course of steps
from the one to the other, and that carry one instance ID on the wire, list the
same entries. -/
def IdentifiesTables (accepted : List TransmitterStep → Prop) (trace : List TransmitterStep) : Prop :=
  ∀ before first between last after, trace = before ++ first :: (between ++ last :: after) →
    accepted (between ++ [last]) → ∀ o o' table table' f f',
    .stored o ∈ first.seen → .stored o' ∈ last.seen →
    .built o table f ∈ Machine.observed trace → .built o' table' f' ∈ Machine.observed trace →
    f.wireInstanceId = f'.wireInstanceId → table.fileEntries = table'.fileEntries

namespace Transmitter
variable {env : Env} {t t' : Transmitter} {e : TransmitterEvent} {out : List TransmitterOutput}

/-- No handler runs in the middle of a call of `send`. -/
def SendsAtomically (t : Transmitter) (e : TransmitterEvent) : Prop := t.call = [] ∨ ∃ now, e = .continueSend now

/-- A step that leaves the entries of the table and its instance ID alone. -/
structure KeepsTable (t t' : Transmitter) : Prop where
  fileEntries : t'.fdt.fileEntries = t.fdt.fileEntries
  instanceId : t'.fdt.instanceId = t.fdt.instanceId
  instanceIdSent : t'.fdt.instanceIdSent = t.fdt.instanceIdSent ∨ t'.fdt.instanceIdSent = t.fdt.instanceId

theorem keepsTable_of_eq (same : t'.fdt = t.fdt) : KeepsTable t t' := by
  constructor <;> rw [same]
  exact Or.inl rfl

theorem keepsTable_of_reissues (same : t'.fdt.Reissues t.fdt) : KeepsTable t t' :=
  ⟨same.fileEntries, same.instanceId, Or.inl same.instanceIdSent⟩

theorem changesTable_sendData {contentLocation contentType : String} {expires now : Nat} {data : List UInt8}
    {f : File} (made : File.ofData env t.toi.toNat t.fecOti contentLocation contentType expires data false = .ok f) :
    changesTable env ⟨t, .sendData contentLocation contentType expires data now, out⟩ = true := by
  simp only [changesTable, made]
  rfl

/-- What a step does to the table, and whether it calls `add` or `remove`. -/
theorem Effect.table (effect : Effect env t e t' out) :
    (changesTable env ⟨t, e, out⟩ = false ∧ KeepsTable t t') ∨
    (changesTable env ⟨t, e, out⟩ = true ∧
      t'.fdt.instanceId = if t.fdt.instanceId = t.fdt.instanceIdSent then (t.fdt.instanceId + 1) % 2 ^ 32
        else t.fdt.instanceId) := by
  have bumped : ∀ fdt : FileDeliveryTable, fdt.bump.instanceId =
      if fdt.instanceId = fdt.instanceIdSent then (fdt.instanceId + 1) % 2 ^ 32 else fdt.instanceId := by
    intro fdt
    unfold FileDeliveryTable.bump
    split <;> rfl
  cases effect with
  | settings passive _ fdt =>
    refine Or.inl ⟨?_, keepsTable_of_eq fdt⟩
    cases e <;> first | rfl | cases passive
  | rejected refused _ fdt =>
    refine Or.inl ⟨?_, keepsTable_of_eq fdt⟩
    cases refused with
    | data made =>
      simp only [changesTable, made]
      rfl
    | description => rfl
  | hands is => rcases is with ⟨rfl, rfl⟩ | ⟨rfl, rfl⟩ <;> exact Or.inl ⟨rfl, keepsTable_of_eq rfl⟩
  | failed => exact Or.inl ⟨rfl, keepsTable_of_eq rfl⟩
  | marked => exact Or.inl ⟨by simp [changesTable], keepsTable_of_eq rfl⟩
  | finishedFdt => exact Or.inl ⟨by simp [changesTable], keepsTable_of_eq rfl⟩
  | finished _ _ _ _ data same => exact Or.inr ⟨by simp [changesTable, data], same.instanceId.trans (bumped _)⟩
  | finishedStored _ _ _ _ data same => exact Or.inr ⟨by simp [changesTable, data], same.instanceId.trans (bumped _)⟩
  | tickFailed same => exact Or.inl ⟨rfl, keepsTable_of_reissues same⟩
  | ticked same => exact Or.inl ⟨rfl, same.fileEntries, same.instanceId, Or.inr same.instanceId⟩
  | dataFailed _ made same => exact Or.inr ⟨changesTable_sendData made, same.instanceId.trans (bumped _)⟩
  | dataStarted _ made same => exact Or.inr ⟨changesTable_sendData made, same.instanceId.trans (bumped _)⟩
  | described => exact Or.inl ⟨rfl, keepsTable_of_eq rfl⟩
  | storedFdt call => exact Or.inl ⟨by simp [changesTable, call], keepsTable_of_eq rfl⟩
  | markedSent call => exact Or.inl ⟨by simp [changesTable, call], rfl, rfl, Or.inr rfl⟩
  | inserted call => exact Or.inl ⟨by simp [changesTable, call], keepsTable_of_eq rfl⟩
  | addFailed call _ same => exact Or.inr ⟨by simp [changesTable, call], same.instanceId.trans (bumped _)⟩
  | added call _ same => exact Or.inr ⟨by simp [changesTable, call], same.instanceId.trans (bumped _)⟩
  | returned call => exact Or.inl ⟨by simp [changesTable, call], keepsTable_of_eq rfl⟩

/-- A step makes at most one FDT file, under a new number. -/
theorem Effect.built_mem (effect : Effect env t e t' out) {o : Nat} {table : FileDeliveryTable} {f : File}
    (member : TransmitterOutput.built o table f ∈ out) :
    t.objects.length ≤ o ∧ o < t'.objects.length ∧ f.fdtInstanceId = table.instanceId % 2 ^ 16 ∧
      ∀ o' table' f', .built o' table' f' ∈ out → table' = table := by
  cases effect with
  | finished _ _ _ _ _ _ ends => rcases ends with rfl | rfl | ⟨what, rfl⟩ <;> simp at member
  | @finishedStored _ _ _ _ _ issued fdtFile _ _ _ _ _ _ _ isFdt ends =>
    have last : o = t.objects.length ∧ table = issued ∧ f = fdtFile := by
      rcases ends with rfl | rfl <;> simpa using member
    obtain ⟨rfl, rfl, rfl⟩ := last
    refine ⟨le_rfl, by simp, isFdt.instanceId, fun o' table' f' again => ?_⟩
    rcases ends with rfl | rfl <;> simp_all
  | ticked _ isFdt =>
    simp only [List.mem_cons, TransmitterOutput.built.injEq, reduceCtorEq, List.not_mem_nil, or_false] at member
    obtain ⟨rfl, rfl, rfl⟩ := member
    exact ⟨le_rfl, by simp, isFdt.instanceId, by simp +contextual⟩
  | dataStarted _ _ _ isFdt =>
    simp only [List.mem_singleton, TransmitterOutput.built.injEq] at member
    obtain ⟨rfl, rfl, rfl⟩ := member
    exact ⟨by omega, by simp, isFdt.instanceId, by simp +contextual⟩
  | added _ _ _ isFdt =>
    simp only [List.mem_singleton, TransmitterOutput.built.injEq] at member
    obtain ⟨rfl, rfl, rfl⟩ := member
    exact ⟨le_rfl, by simp, isFdt.instanceId, by simp +contextual⟩
  | _ => simp at member

/-- An FDT file that is put into the queue was waiting for it in the call of
`send`, or has just been made. -/
theorem Effect.stored_mem (effect : Effect env t e t' out) {o : Nat} (member : TransmitterOutput.stored o ∈ out) :
    (∃ rest, t.call = .storeFdt o :: rest ∧ t'.call = rest ∧ t'.fdt = t.fdt) ∨
      ∃ table f, .built o table f ∈ out ∧ t'.fdt = table.sent := by
  cases effect with
  | finished _ _ _ _ _ _ ends => rcases ends with rfl | rfl | ⟨what, rfl⟩ <;> simp at member
  | @finishedStored _ _ _ _ _ issued fdtFile _ _ _ _ _ _ _ _ ends =>
    have last : o = t.objects.length := by rcases ends with rfl | rfl <;> simpa using member
    exact Or.inr ⟨issued, fdtFile, by rw [last]; simp, rfl⟩
  | @ticked now issued fdtFile =>
    simp only [List.mem_cons, TransmitterOutput.stored.injEq, reduceCtorEq, List.not_mem_nil, or_false,
      false_or] at member
    exact Or.inr ⟨issued, fdtFile, by rw [member]; simp, rfl⟩
  | storedFdt call =>
    simp only [List.mem_singleton, TransmitterOutput.stored.injEq] at member
    exact Or.inl ⟨_, by rw [member]; exact call, rfl, rfl⟩
  | _ => simp at member

/-- The FDT files made so far, each with its table. -/
structure Numbered (t : Transmitter) (log : List TransmitterOutput) : Prop where
  known : ∀ o table f, .built o table f ∈ log →
    o < t.objects.length ∧ f.fdtInstanceId = table.instanceId % 2 ^ 16
  unique : ∀ o table f table' f', .built o table f ∈ log → .built o table' f' ∈ log → table = table'

theorem Numbered.step {log : List TransmitterOutput} (numbered : t.Numbered log) (sound : t.queue.Sound)
    (effect : Effect env t e t' out) : t'.Numbered (log ++ out) := by
  have grows := (effect.traffic sound).objects_length
  constructor
  · intro o table f member
    rcases List.mem_append.mp member with old | new
    · have known := numbered.known o table f old
      exact ⟨by omega, known.2⟩
    · have made := effect.built_mem new
      exact ⟨made.2.1, made.2.2.1⟩
  · intro o table f table' f' member member'
    rcases List.mem_append.mp member with old | new <;> rcases List.mem_append.mp member' with old' | new'
    · exact numbered.unique o table f table' f' old old'
    · have known := (numbered.known o table f old).1
      have made := (effect.built_mem new').1
      omega
    · have known := (numbered.known o table' f' old').1
      have made := (effect.built_mem new).1
      omega
    · exact ((effect.built_mem new).2.2.2 o table' f' new').symm

/-- The FDT file that the call of `send` is about to put into the queue is that
of the table as it is. -/
structure Pending (t : Transmitter) (log : List TransmitterOutput) : Prop where
  head : ∀ o rest, t.call = .storeFdt o :: rest → (∃ later, rest = .markSent :: later) ∧
    ∃ table f, .built o table f ∈ log ∧ t.fdt.fileEntries = table.fileEntries ∧ t.fdt.instanceId = table.instanceId
  tail : ∀ o, .storeFdt o ∉ t.call.tail

theorem pending_of_idle {log : List TransmitterOutput} (idle : t.call = []) : t.Pending log :=
  ⟨fun o rest call => by simp [idle] at call, by simp [idle]⟩

theorem Pending.pop {log later : List TransmitterOutput} (pending : t.Pending log)
    (call : t'.call = t.call.tail) : t'.Pending later := by
  constructor
  · intro o rest head
    have inTail : .storeFdt o ∈ t.call.tail := by rw [← call, head]; simp
    exact absurd inTail (pending.tail o)
  · intro o inTail
    rw [call] at inTail
    exact pending.tail o (List.mem_of_mem_tail inTail)

theorem pending_of_start {log : List TransmitterOutput} {o : Nat} {table : FileDeliveryTable} {f : File}
    {later : List SendStep} (call : t.call = .storeFdt o :: .markSent :: later)
    (made : .built o table f ∈ log) (isTable : t.fdt = table) (last : ∀ o, .storeFdt o ∉ later) :
    t.Pending log := by
  constructor
  · intro o' rest head
    rw [call, List.cons.injEq, SendStep.storeFdt.injEq] at head
    obtain ⟨rfl, rfl⟩ := head
    exact ⟨⟨later, rfl⟩, table, f, made, by rw [isTable], by rw [isTable]⟩
  · intro o' inTail
    rw [call, List.tail_cons, List.mem_cons] at inTail
    exact inTail.elim (fun same => by cases same) (last o')

theorem Pending.step {log : List TransmitterOutput} (pending : t.Pending log) (atomic : t.SendsAtomically e)
    (effect : Effect env t e t' out) : t'.Pending (log ++ out) := by
  have idle : (∀ now, e ≠ .continueSend now) → t.call = [] := fun other =>
    atomic.resolve_right fun ⟨now, same⟩ => other now same
  cases effect with
  | settings passive queue =>
    have none := idle fun now same => by rw [same] at passive; cases passive
    exact pending_of_idle ((congrArg SendQueue.call queue).trans none)
  | rejected refused queue =>
    have none := idle fun now same => by rw [same] at refused; cases refused
    exact pending_of_idle ((congrArg SendQueue.call queue).trans none)
  | hands is =>
    have none := idle fun now same => by rcases is with ⟨_, rfl⟩ | ⟨_, rfl⟩ <;> cases same
    rcases is with ⟨rfl, _⟩ | ⟨rfl, _⟩ <;> exact pending_of_idle none
  | dataStarted =>
    refine pending_of_start rfl (List.mem_append_right _ (List.mem_singleton_self _)) rfl ?_
    simp
  | described => exact ⟨fun o rest call => by simp at call, by simp⟩
  | storedFdt call => exact pending.pop (by rw [call]; rfl)
  | markedSent call => exact pending.pop (by rw [call]; rfl)
  | inserted call => exact pending.pop (by rw [call]; rfl)
  | returned call => exact pending.pop (by rw [call]; rfl)
  | addFailed => exact pending_of_idle rfl
  | added call =>
    refine pending_of_start rfl (List.mem_append_right _ (List.mem_singleton_self _)) rfl fun o inRest => ?_
    exact pending.tail o (by rw [call]; exact inRest)
  | _ => exact pending_of_idle (idle fun now => by simp)

/-- How far the table has come since it was put into the queue as `table`. -/
structure Since (t : Transmitter) (table : FileDeliveryTable) (instances : Nat) : Prop where
  instanceId : t.fdt.instanceId % 2 ^ 16 = (table.instanceId + instances) % 2 ^ 16
  unchanged : instances = 0 → t.fdt.fileEntries = table.fileEntries ∧
    (t.fdt.instanceId = t.fdt.instanceIdSent ∨ ∃ rest, t.call = .markSent :: rest)

/-- Marking the FDT as sent is the next step of the call. -/
theorem Effect.markSent (effect : Effect env t e t' out) (atomic : t.SendsAtomically e) {rest : List SendStep}
    (call : t.call = .markSent :: rest) :
    changesTable env ⟨t, e, out⟩ = false ∧ t'.fdt.instanceId = t'.fdt.instanceIdSent := by
  obtain ⟨now, rfl⟩ := atomic.resolve_left (by simp [call])
  cases effect with
  | settings passive => cases passive
  | rejected refused => cases refused
  | hands is => rcases is with ⟨_, same⟩ | ⟨_, same⟩ <;> cases same
  | markedSent => exact ⟨by simp [changesTable, call], rfl⟩
  | storedFdt other => simp [call] at other
  | inserted other => simp [call] at other
  | addFailed other => simp [call] at other
  | added other => simp [call] at other
  | returned other => simp [call] at other

theorem Since.step {table : FileDeliveryTable} {instances : Nat} (since : t.Since table instances)
    (atomic : t.SendsAtomically e) (effect : Effect env t e t' out) :
    t'.Since table (instances + if startsInstance env ⟨t, e, out⟩ then 1 else 0) := by
  have instanceId := since.instanceId
  rcases effect.table with ⟨keeps, same⟩ | ⟨changes, bumped⟩
  · rw [show startsInstance env ⟨t, e, out⟩ = false by simp [startsInstance, keeps]]
    refine ⟨by rw [same.instanceId]; exact instanceId, fun none => ?_⟩
    obtain ⟨entries, sent | ⟨rest, call⟩⟩ := since.unchanged none
    · refine ⟨same.fileEntries.trans entries, Or.inl ?_⟩
      rcases same.instanceIdSent with old | new
      · rw [same.instanceId, old]
        exact sent
      · rw [same.instanceId, new]
    · exact ⟨same.fileEntries.trans entries, Or.inl (effect.markSent atomic call).2⟩
  · by_cases sent : t.fdt.instanceId = t.fdt.instanceIdSent
    · rw [show startsInstance env ⟨t, e, out⟩ = true by simp [startsInstance, changes, sent]]
      rw [if_pos sent] at bumped
      exact ⟨by rw [bumped, if_pos rfl]; omega, fun none => by simp at none⟩
    · rw [show startsInstance env ⟨t, e, out⟩ = false by simp [startsInstance, sent]]
      rw [if_neg sent] at bumped
      refine ⟨by rw [bumped]; exact instanceId, fun none => ?_⟩
      obtain ⟨_, same | ⟨rest, call⟩⟩ := since.unchanged none
      · exact absurd same sent
      · exact absurd changes (by simp [(effect.markSent atomic call).1])

/-- An FDT file that has just been put into the queue is that of the table as it is. -/
theorem Effect.since_stored {log : List TransmitterOutput} (effect : Effect env t e t' out) (pending : t.Pending log)
    {o : Nat} (member : TransmitterOutput.stored o ∈ out) :
    ∃ table f, .built o table f ∈ log ++ out ∧ t'.Since table 0 := by
  rcases effect.stored_mem member with ⟨rest, call, next, same⟩ | ⟨table, f, made, sent⟩
  · obtain ⟨⟨later, rfl⟩, table, f, made, entries, instanceId⟩ := pending.head o rest call
    refine ⟨table, f, List.mem_append_left _ made, ?_, fun _ => ⟨?_, Or.inr ⟨later, next⟩⟩⟩
    · rw [same, instanceId]
      rfl
    · rw [same, entries]
  · refine ⟨table, f, List.mem_append_right _ made, ?_, fun _ => ⟨?_, Or.inl ?_⟩⟩ <;> rw [sent] <;> rfl

/-- Every FDT file that was put into the queue is known, with how far the table
has come since. -/
def AllSince (env : Env) (t : Transmitter) (trace : List TransmitterStep) : Prop :=
  ∀ before first between, trace = before ++ first :: between → ∀ o, .stored o ∈ first.seen →
    ∃ table f, .built o table f ∈ Machine.observed trace ∧ t.Since table (newInstances env between)

theorem observed_append (trace : List TransmitterStep) (s : TransmitterStep) :
    Machine.observed (trace ++ [s]) = Machine.observed trace ++ s.seen := by
  simp [Machine.observed]

theorem AllSince.step {trace : List TransmitterStep} (all : AllSince env t trace)
    (pending : t.Pending (Machine.observed trace)) (atomic : t.SendsAtomically e) (effect : Effect env t e t' out) :
    AllSince env t' (trace ++ [⟨t, e, out⟩]) := by
  intro before first between split o stored
  rw [observed_append]
  rcases List.eq_nil_or_concat between with rfl | ⟨init, last, rfl⟩
  · obtain ⟨_, rfl⟩ := List.append_inj' split rfl |>.imp_right List.singleton_inj.mp
    obtain ⟨table, f, made, since⟩ := effect.since_stored pending stored
    exact ⟨table, f, made, since⟩
  · rw [List.concat_eq_append, ← List.cons_append, ← List.append_assoc] at split
    rw [List.concat_eq_append]
    obtain ⟨front, last⟩ := List.append_inj' split rfl
    obtain rfl := List.singleton_inj.mp last
    obtain ⟨table, f, made, since⟩ := all before first init front o stored
    refine ⟨table, f, List.mem_append_left _ made, ?_⟩
    have next := since.step atomic effect
    simpa only [newInstances, List.countP_append, List.countP_singleton] using next

/-- The step that puts an FDT file into the queue finds the table as it is written there. -/
theorem reach_allSince {trace : List TransmitterStep}
    (reach : (transmitter env).traced.Reach (fun t _ e => t.SendsAtomically e) t trace) :
    t.Numbered (Machine.observed trace) ∧ AllSince env t trace := by
  have invariant : t.queue.Sound ∧ t.Numbered (Machine.observed trace) ∧ t.Pending (Machine.observed trace) ∧
      AllSince env t trace := by
    refine reach.invariant (I := fun t trace => t.queue.Sound ∧ t.Numbered (Machine.observed trace) ∧
      t.Pending (Machine.observed trace) ∧ AllSince env t trace) ?_ ?_
    · rintro s ⟨_, _, _, _, _, _, _, _, _, rfl⟩
      exact ⟨sound_create .., ⟨by simp [Machine.observed], by simp [Machine.observed]⟩, pending_of_idle rfl,
        fun before first between split => by simp at split⟩
    · rintro s trace e s' entries ⟨sound, numbered, pending, all⟩ atomic run
      obtain ⟨out, step, rfl⟩ := Machine.step_traced.mp run
      have effect := step_effect sound step
      refine ⟨effect.sound sound, ?_, ?_, all.step pending atomic effect⟩
      · rw [observed_append]
        exact numbered.step sound effect
      · rw [observed_append]
        exact pending.step atomic effect
  exact ⟨invariant.2.1, invariant.2.2.2⟩

/-- As long as no multiple of 2^16 instances lies between two FDT files, the ID on
the wire tells their tables apart. -/
theorem instance_ids_identify_tables (env : Env) (t : Transmitter) (trace : List TransmitterStep)
    (reach : (transmitter env).traced.Reach (fun t _ e => t.SendsAtomically e) t trace) :
    IdentifiesTables (fun steps => newInstances env steps % 2 ^ 16 = 0 → newInstances env steps = 0) trace := by
  intro before first between last after split few o o' table table' f f' stored stored' made made' same
  have numbered := (reach_allSince reach).1
  rw [← List.cons_append, ← List.append_assoc] at split
  obtain ⟨front, atomic, next, step⟩ := reach.front split
  have reachLast : (transmitter env).traced.Reach (fun t _ e => t.SendsAtomically e) next
      (before ++ first :: between ++ [last]) :=
    front.next atomic (Machine.step_traced.mpr ⟨_, step, rfl⟩)
  have all := (reach_allSince reachLast).2
  have inTrace : ∀ output ∈ Machine.observed (before ++ first :: between ++ [last]),
      output ∈ Machine.observed trace := by
    intro output member
    rw [split]
    simp only [Machine.observed, List.flatMap_append, List.flatMap_cons, List.mem_append] at member ⊢
    tauto
  obtain ⟨mine, g, built, since⟩ := all before first (between ++ [last]) (by simp) o stored
  obtain ⟨mine', g', built', since'⟩ := all (before ++ first :: between) last [] (by simp) o' stored'
  obtain rfl := numbered.unique o table f mine g made (inTrace _ built)
  obtain rfl := numbered.unique o' table' f' mine' g' made' (inTrace _ built')
  have isId := (numbered.known o table f made).2
  have isId' := (numbered.known o' table' f' made').2
  rw [File.wireInstanceId_eq, File.wireInstanceId_eq, isId, isId'] at same
  have here := since.instanceId
  have there := since'.instanceId
  simp only [newInstances, List.countP_nil] at there
  have none := few (by omega)
  rw [← (since.unchanged none).1, ← (since'.unchanged rfl).1]

end Transmitter

/-! One description that is sent 2 ^ 16 + 1 times gives two tables one ID on the wire. -/

/-- Characters take at most four bytes. -/
theorem length_toUTF8_le (chars : List Char) :
    (String.ofList chars).toUTF8.toList.length ≤ 4 * chars.length := by
  rw [toList_toUTF8, textBytes]
  induction chars with
  | nil => simp
  | cons c rest ih =>
    have small := Char.utf8Size_le_four c
    simp only [List.flatMap_cons, List.length_append, String.length_utf8EncodeChar, List.length_cons]
    omega

theorem length_printElements_replicate (depth n : Nat) (element : XmlElement) :
    (printElements depth (List.replicate n element)).length = n * (printElement depth element).length := by
  induction n with
  | zero => simp [printElements]
  | succ n ih =>
    rw [List.replicate_succ, printElements, List.length_append, ih, Nat.succ_mul, Nat.add_comm]

/-- A document with many equal children. -/
theorem length_printElement_replicate (name : String) (attributes : List (String × String)) (n : Nat)
    (child : XmlElement) : (printElement 0 (.mk name attributes none (List.replicate (n + 1) child))).length =
      (printAttributes attributes).length + 2 * name.length + 7 + (n + 1) * (printElement 1 child).length := by
  have children := length_printElements_replicate 1 n child
  rw [List.replicate_succ, printElement]
  simp only [List.length_append, List.length_cons, List.length_nil, indentXml, List.length_replicate, children,
    String.length_toList]
  rw [Nat.succ_mul n, Nat.zero_add]
  omega

/-- A description that was given its TOI by an earlier transmitter of the session. -/
def resent : FileDescription where
  tsi := some 16
  entry := { toi := 1, contentLocation := "a.txt", contentLength := 1, contentMd5 := base64Encode (Md5.digest [97]) }
  data := [97]
  toi_lt := by decide
  noCode := rfl
  digest := Or.inr ⟨_, Md5.length_digest _, rfl⟩

/-- What is listed of it each time. -/
def resentEntry : FileEntry :=
  { resent.entry with fecOti := { sessionFecOti 1436 with transferLength := 1 } }

theorem resent_made : ∃ f,
    File.ofDescription (sampleEnv [] []) (resent.mergeFecOti (sessionFecOti 1436) rfl) = .ok f ∧ f.entry = resentEntry := by
  have made : (File.ofDescription (sampleEnv [] []) (resent.mergeFecOti (sessionFecOti 1436) rfl)).toOption.map
      File.entry = some resentEntry := by decide +kernel
  cases run : File.ofDescription (sampleEnv [] []) (resent.mergeFecOti (sessionFecOti 1436) rfl) with
  | error e => rw [run] at made; cases made
  | ok f =>
    rw [run] at made
    exact ⟨f, rfl, Option.some.inj made⟩

/-- The table lists the description so many times. -/
structure ListsResent (n : Nat) (fdt : FileDeliveryTable) : Prop where
  fileEntries : fdt.fileEntries = List.replicate n resentEntry
  globalFecOti : fdt.globalFecOti = sessionFecOti 1436
  fdtNamespace : fdt.fdtNamespace = .none

theorem length_print_resent {n : Nat} {fdt : FileDeliveryTable} (lists : ListsResent (n + 1) fdt)
    (expires : fdt.expires = 10) : (fdt.print (sampleEnv [] [])).length ≤ 2000 + (n + 1) * 2000 := by
  have attributes : ∃ attributes, fdt.document = .mk "FDT-Instance" attributes none
      (List.replicate (n + 1) (FileDeliveryTable.fileElement (sessionFecOti 1436) resentEntry)) ∧
      (printAttributes attributes).length ≤ 400 := by
    refine ⟨_, by rw [FileDeliveryTable.document, lists.fileEntries, List.map_replicate, lists.globalFecOti], ?_⟩
    rw [lists.fdtNamespace, expires]
    decide +kernel
  obtain ⟨attributes, document, short⟩ := attributes
  have child : (printElement 1 (FileDeliveryTable.fileElement (sessionFecOti 1436) resentEntry)).length ≤ 500 := by
    decide +kernel
  have header : "<?xml version=\"1.0\" encoding=\"UTF-8\"?>".toUTF8.toList.length = 38 := by decide +kernel
  have body := length_printElement_replicate "FDT-Instance" attributes n
    (FileDeliveryTable.fileElement (sessionFecOti 1436) resentEntry)
  have children : (n + 1) * (printElement 1 (FileDeliveryTable.fileElement (sessionFecOti 1436) resentEntry)).length ≤
      (n + 1) * 500 := Nat.mul_le_mul_left _ child
  have name : "FDT-Instance".length = 12 := by decide
  have encoded := length_toUTF8_le (printElement 0 fdt.document ++ ['\n'])
  rw [document] at encoded
  change (printDocument fdt.document).length ≤ _
  rw [printDocument, document, List.length_append, header]
  simp only [List.length_append, List.length_cons, List.length_nil, body, name] at encoded ⊢
  omega

/-- The FDT file can be made as often as the description is sent here. -/
theorem resent_fdt_made {n : Nat} {fdt : FileDeliveryTable} (lists : ListsResent (n + 1) fdt)
    (expires : fdt.expires = 10) (few : n ≤ 2 ^ 16) : ∃ f,
    File.ofData (sampleEnv [] []) 0 (sessionFecOti 1436) "" "" 10 (fdt.print (sampleEnv [] [])) true = .ok f := by
  have short := length_print_resent lists expires
  have blocks : (fdt.print (sampleEnv [] [])).length ⌈/⌉ 1436 ⌈/⌉ 64 ≤ 65536 := by
    rw [ceilDiv_le_iff_le_mul (by decide), ceilDiv_le_iff_le_mul (by decide)]
    omega
  have positive : 0 < (fdt.print (sampleEnv [] [])).length :=
    List.length_pos_of_ne_nil ((sampleEnv [] []).printXml_ne_nil _)
  have tile := sessionFecOti_tileable (show 0 < 1436 by decide) blocks
  rw [File.ofData, if_neg (by simp [sampleEnv]), if_pos (show (sessionFecOti 1436).encodingId = .compactNoCode from rfl)]
  exact ⟨_, File.withBlocks_layout tile positive⟩

/-- After so many calls of `send`, each at its end. -/
structure Resent (n : Nat) (t : Transmitter) : Prop where
  tsi : t.tsi = 16
  fecOti : t.fecOti = sessionFecOti 1436
  idle : t.call = []
  active : t.active = true
  lists : ListsResent n t.fdt
  current : t.fdt.instanceId = max n 1
  next : t.fdt.bump.instanceId = n + 1

theorem resend_starts {n : Nat} {t : Transmitter} (state : Resent n t) : ∃ f, f.entry = resentEntry ∧
    t.step (sampleEnv [] []) (.sendDescription resent) = some ({ t with
      objects := t.objects ++ [f]
      call := [.insertFile 1 t.objects.length, .addEntry t.objects.length, .returns 1 t.objects.length] }, []) := by
  obtain ⟨f, made, entry⟩ := resent_made
  have merged : (resent.assign t.tsi t.toi).mergeFecOti t.fecOti t.noCode =
      resent.mergeFecOti (sessionFecOti 1436) rfl := by
    have assigned : resent.assign t.tsi t.toi = resent := by
      rw [state.tsi]
      rfl
    have fecOti := state.fecOti
    rw [assigned]
    generalize t.noCode = noCode
    revert noCode
    rw [fecOti]
    intro _
    rfl
  have known : resent.needsToi t.tsi = false := by
    rw [state.tsi]
    rfl
  refine ⟨f, entry, ?_⟩
  simp only [Transmitter.step, Transmitter.perform, if_pos state.idle, Transmitter.sendDescription, merged, made,
    known, Bool.false_eq_true, if_false]
  rfl

/-- The table behind the next call of `send`. -/
def resentTable (t : Transmitter) : FileDeliveryTable := (t.fdt.add resentEntry).setExpires 10

theorem resentTable_lists {n : Nat} {t : Transmitter} (state : Resent n t) : ListsResent (n + 1) (resentTable t) := by
  have bumped : t.fdt.bump.globalFecOti = t.fdt.globalFecOti ∧ t.fdt.bump.fdtNamespace = t.fdt.fdtNamespace := by
    unfold FileDeliveryTable.bump
    split <;> exact ⟨rfl, rfl⟩
  refine ⟨?_, bumped.1.trans state.lists.globalFecOti, bumped.2.trans state.lists.fdtNamespace⟩
  change t.fdt.fileEntries ++ [resentEntry] = _
  rw [state.lists.fileEntries, List.replicate_succ']

theorem resend_builds {n : Nat} {t : Transmitter} (state : Resent n t) (few : n ≤ 2 ^ 16)
    {object : Nat} {f : File} {files : SortedMap Nat Nat} {objects : List File} (found : objects[object]? = some f)
    (entry : f.entry = resentEntry) (rest : List SendStep) : ∃ g : File, g.fdtInstanceId = (n + 1) % 2 ^ 16 ∧
      ({ t with files := files, objects := objects, call := .addEntry object :: rest } : Transmitter).step
          (sampleEnv [] []) (.continueSend 0) = some ({ t with
        files := files
        objects := objects ++ [g]
        fdt := resentTable t
        call := .storeFdt objects.length :: .markSent :: rest }, [.built objects.length (resentTable t) g]) := by
  obtain ⟨g, made⟩ := resent_fdt_made (resentTable_lists state) rfl few
  have some : (t.fdt.add resentEntry).fileEntries ≠ [] := by simp
  have instanceId : (resentTable t).instanceId = n + 1 := state.next
  have ready : File.ofData (sampleEnv [] []) 0 t.fecOti "" "" (0 + Transmitter.fdtRepeatInterval * 2)
      (FileDeliveryTable.print (sampleEnv [] [])
        ((t.fdt.add resentEntry).setExpires (0 + Transmitter.fdtRepeatInterval * 2))) true = .ok g := by
    rw [state.fecOti]
    exact made
  refine ⟨g.setFdtInstanceId (resentTable t).instanceId, by rw [instanceId]; rfl, ?_⟩
  simp only [Transmitter.step, Transmitter.perform, Transmitter.continueSend, Transmitter.object?, found, entry,
    Transmitter.startSendFdt, Transmitter.buildFdt, if_neg some, ready]
  rfl

/-- A step that `send` is not interrupted by goes on with a run. -/
theorem traced_next {env : Env} {t t' : Transmitter} {e : TransmitterEvent} {out : List TransmitterOutput}
    {trace : List TransmitterStep}
    (reach : (transmitter env).traced.Reach (fun t _ e => t.SendsAtomically e) t trace)
    (atomic : t.SendsAtomically e) (run : t.step env e = some (t', out)) :
    (transmitter env).traced.Reach (fun t _ e => t.SendsAtomically e) t' (trace ++ [⟨t, e, out⟩]) :=
  reach.next atomic (Machine.step_traced.mpr ⟨out, run, rfl⟩)

theorem bump_sent (fdt : FileDeliveryTable) : fdt.sent.bump.instanceId = (fdt.instanceId + 1) % 2 ^ 32 := by
  simp [FileDeliveryTable.bump, FileDeliveryTable.sent]

/-- One more call of `send`: one change of the table, and one more FDT file in the queue. -/
theorem resend {n : Nat} {t : Transmitter} {trace : List TransmitterStep} (state : Resent n t) (few : n ≤ 2 ^ 16)
    (reach : (transmitter (sampleEnv [] [])).traced.Reach (fun t _ e => t.SendsAtomically e) t trace) :
    ∃ t' front last back, Resent (n + 1) t' ∧
      (transmitter (sampleEnv [] [])).traced.Reach (fun t _ e => t.SendsAtomically e) t'
        (trace ++ (front ++ last :: back)) ∧
      tableChanges (sampleEnv [] []) (front ++ last :: back) = 1 ∧ newInstances (sampleEnv [] []) back = 0 ∧
      ∃ o table f, .stored o ∈ last.seen ∧ .built o table f ∈ Machine.observed (front ++ last :: back) ∧
        table.fileEntries = List.replicate (n + 1) resentEntry ∧ f.fdtInstanceId = (n + 1) % 2 ^ 16 := by
  have lists := resentTable_lists state
  have instanceId : (resentTable t).instanceId = n + 1 := state.next
  obtain ⟨f, entry, run₁⟩ := resend_starts state
  set s₁ : Transmitter := { t with
    objects := t.objects ++ [f]
    call := [.insertFile 1 t.objects.length, .addEntry t.objects.length, .returns 1 t.objects.length] }
  set s₂ : Transmitter := { t with
    files := t.files.insert 1 t.objects.length
    objects := t.objects ++ [f]
    call := [.addEntry t.objects.length, .returns 1 t.objects.length] }
  have run₂ : s₁.step (sampleEnv [] []) (.continueSend 0) = some (s₂, []) := rfl
  obtain ⟨g, isId, run₃⟩ := resend_builds state few (show (t.objects ++ [f])[t.objects.length]? = some f by simp) entry
    [.returns 1 t.objects.length]
  set s₃ : Transmitter := { t with
    files := t.files.insert 1 t.objects.length
    objects := t.objects ++ [f] ++ [g]
    fdt := resentTable t
    call := [.storeFdt (t.objects ++ [f]).length, .markSent, .returns 1 t.objects.length] }
  set s₄ : Transmitter := { s₃.storeFdt (t.objects ++ [f]).length with
    call := [.markSent, .returns 1 t.objects.length] }
  have run₄ : s₃.step (sampleEnv [] []) (.continueSend 0) = some (s₄, [.stored (t.objects ++ [f]).length]) := rfl
  set s₅ : Transmitter := { s₄.markSent with call := [.returns 1 t.objects.length] }
  have run₅ : s₄.step (sampleEnv [] []) (.continueSend 0) = some (s₅, []) := rfl
  set s₆ : Transmitter := { s₅ with call := [] }
  have run₆ : s₅.step (sampleEnv [] []) (.continueSend 0) = some (s₆, [.returned 1 t.objects.length]) := rfl
  have resume : ∀ s : Transmitter, s.SendsAtomically (.continueSend 0) := fun s => Or.inr ⟨0, rfl⟩
  have course := traced_next (traced_next (traced_next (traced_next (traced_next (traced_next reach
    (Or.inl state.idle) run₁) (resume _) run₂) (resume _) run₃) (resume _) run₄) (resume _) run₅) (resume _) run₆
  refine ⟨s₆, [⟨t, .sendDescription resent, []⟩, ⟨s₁, .continueSend 0, []⟩,
      ⟨s₂, .continueSend 0, [.built (t.objects ++ [f]).length (resentTable t) g]⟩],
    ⟨s₃, .continueSend 0, [.stored (t.objects ++ [f]).length]⟩,
    [⟨s₄, .continueSend 0, []⟩, ⟨s₅, .continueSend 0, [.returned 1 t.objects.length]⟩], ?_, ?_, ?_, ?_, ?_⟩
  · refine ⟨state.tsi, state.fecOti, rfl, state.active, ⟨lists.fileEntries, lists.globalFecOti, lists.fdtNamespace⟩, ?_, ?_⟩
    · exact instanceId.trans (by omega)
    · change (FileDeliveryTable.bump (resentTable t).sent).instanceId = n + 1 + 1
      rw [bump_sent, instanceId]
      omega
  · simpa only [List.append_assoc, List.cons_append, List.nil_append] using course
  · rfl
  · rfl
  · exact ⟨(t.objects ++ [f]).length, resentTable t, g, by simp, by simp [Machine.observed], lists.fileEntries, isId⟩

/-- Any number of calls of `send`, by induction on the number. -/
theorem resend_many {n : Nat} {t : Transmitter} {trace : List TransmitterStep} (count : Nat) (state : Resent n t)
    (few : n + count ≤ 2 ^ 16 + 1)
    (reach : (transmitter (sampleEnv [] [])).traced.Reach (fun t _ e => t.SendsAtomically e) t trace) :
    ∃ t' steps, Resent (n + count) t' ∧
      (transmitter (sampleEnv [] [])).traced.Reach (fun t _ e => t.SendsAtomically e) t' (trace ++ steps) ∧
      tableChanges (sampleEnv [] []) steps = count := by
  induction count with
  | zero => exact ⟨t, [], state, by rw [List.append_nil]; exact reach, rfl⟩
  | succ count ih =>
    obtain ⟨s, steps, mid, reachMid, changes⟩ := ih (by omega)
    obtain ⟨t', front, last, back, next, reachNext, more, _⟩ := resend mid (by omega) reachMid
    refine ⟨t', steps ++ (front ++ last :: back), next, by rw [← List.append_assoc]; exact reachNext, ?_⟩
    rw [tableChanges, List.countP_append]
    exact congrArg₂ (· + ·) changes more

theorem resent_start : Resent 0 (session 1500) := ⟨rfl, rfl, rfl, rfl, ⟨rfl, rfl, rfl⟩, rfl, rfl⟩

/-- The repeat timer puts one more FDT file of the instance into the queue. -/
theorem resend_ticks {n : Nat} {t : Transmitter} {trace : List TransmitterStep} (state : Resent (n + 1) t)
    (few : n ≤ 2 ^ 16)
    (reach : (transmitter (sampleEnv [] [])).traced.Reach (fun t _ e => t.SendsAtomically e) t trace) :
    ∃ t' o table f, f.fdtInstanceId = (n + 1) % 2 ^ 16 ∧
      (transmitter (sampleEnv [] [])).traced.Reach (fun t _ e => t.SendsAtomically e) t'
        (trace ++ [⟨t, .fdtSendTick 0, [.built o table f, .stored o]⟩]) := by
  have lists : ListsResent (n + 1) (t.fdt.setExpires 10) :=
    ⟨state.lists.fileEntries, state.lists.globalFecOti, state.lists.fdtNamespace⟩
  obtain ⟨f, made⟩ := resent_fdt_made lists rfl few
  have listed : t.fdt.fileEntries ≠ [] := by simp [state.lists.fileEntries]
  have ready : File.ofData (sampleEnv [] []) 0 t.fecOti "" "" (0 + Transmitter.fdtRepeatInterval * 2)
      ((t.fdt.setExpires (0 + Transmitter.fdtRepeatInterval * 2)).print (sampleEnv [] [])) true = .ok f := by
    rw [state.fecOti]
    exact made
  have current : t.fdt.instanceId = n + 1 := state.current.trans (by omega)
  have run : t.step (sampleEnv [] []) (.fdtSendTick 0) = some
      (((Transmitter.alloc { t with fdt := t.fdt.setExpires 10 } (f.setFdtInstanceId t.fdt.instanceId)).storeFdt
        t.objects.length).markSent,
        [.built t.objects.length (t.fdt.setExpires 10) (f.setFdtInstanceId t.fdt.instanceId), .stored t.objects.length]) := by
    simp only [Transmitter.step, Transmitter.perform, if_pos state.active, Transmitter.sendFdt, Transmitter.buildFdt,
      if_neg listed, ready]
    rfl
  exact ⟨_, _, _, f.setFdtInstanceId t.fdt.instanceId, by rw [current]; rfl, traced_next reach (Or.inl state.idle) run⟩

/-- The description is sent twice, and the FDT that was sent last is repeated under its instance ID. -/
theorem instance_ids_identify_tables_repeated : ∃ t before first between last o o' table table' f f',
    (transmitter (sampleEnv [] [])).traced.Reach (fun t _ e => t.SendsAtomically e) t
      (before ++ first :: (between ++ [last])) ∧
    tableChanges (sampleEnv [] []) (before ++ first :: (between ++ [last])) = 2 ∧
    .stored o ∈ first.seen ∧ .stored o' ∈ last.seen ∧
    .built o table f ∈ Machine.observed (before ++ first :: (between ++ [last])) ∧
    .built o' table' f' ∈ Machine.observed (before ++ first :: (between ++ [last])) ∧
    f.wireInstanceId = f'.wireInstanceId ∧ table.fileEntries = table'.fileEntries := by
  obtain ⟨s, steps, one, reachOne, changes⟩ := resend_many 1 resent_start (by decide)
    (.start ⟨_, _, _, _, _, _, _, _, by decide, rfl⟩)
  obtain ⟨s', front, last, back, two, reachTwo, more, quiet, o, table, f, stored, built, _, isId⟩ :=
    resend one (by decide) reachOne
  obtain ⟨t, o', table', f', isId', reach⟩ := resend_ticks two (by decide) reachTwo
  set tick : TransmitterStep := ⟨s', .fdtSendTick 0, [.built o' table' f', .stored o']⟩
  have split : [] ++ steps ++ (front ++ last :: back) ++ [tick] = (steps ++ front) ++ last :: (back ++ [tick]) := by simp
  rw [split] at reach
  have builtHere : .built o table f ∈ Machine.observed ((steps ++ front) ++ last :: (back ++ [tick])) := by
    rw [← split, List.nil_append, Machine.observed, List.flatMap_append, List.flatMap_append]
    exact List.mem_append_left _ (List.mem_append_right _ built)
  have builtThen : .built o' table' f' ∈ Machine.observed ((steps ++ front) ++ last :: (back ++ [tick])) := by
    simp [Machine.observed, tick]
  have wire : f.wireInstanceId = f'.wireInstanceId := by rw [File.wireInstanceId_eq, File.wireInstanceId_eq, isId, isId']
  have none : newInstances (sampleEnv [] []) (back ++ [tick]) = 0 := by
    rw [newInstances, List.countP_append, show List.countP _ back = 0 from quiet]
    rfl
  refine ⟨t, steps ++ front, last, back, tick, o, o', table, table', f, f', reach, ?_, stored, by simp [tick], builtHere,
    builtThen, wire, ?_⟩
  · have last : tableChanges (sampleEnv [] []) [tick] = 0 := rfl
    rw [← split]
    simp only [tableChanges, List.countP_append, List.countP_nil] at changes more last ⊢
    omega
  · exact Transmitter.instance_ids_identify_tables _ t _ reach _ last back tick [] rfl (fun _ => none) o o' table table'
      f f' stored (by simp [tick]) builtHere builtThen wire

/-- The first FDT file and the one after 2 ^ 16 more calls of `send`. -/
theorem not_instance_ids_identify_tables : ¬ ∀ env t trace,
    (transmitter env).traced.Reach (fun t _ e => t.SendsAtomically e) t trace →
    IdentifiesTables (fun steps => tableChanges env steps < 2 ^ 20) trace := by
  intro claim
  obtain ⟨s, front, first, back, one, reachOne, few, _, o, table, f, stored, built, entries, isId⟩ :=
    resend resent_start (by decide) (.start ⟨_, _, _, _, _, _, _, _, by decide, rfl⟩)
  obtain ⟨s', steps, many, reachMany, changes⟩ := resend_many (2 ^ 16 - 1) one (by decide) reachOne
  obtain ⟨t, front', last, back', _, reach, more, _, o', table', f', stored', built', entries', isId'⟩ :=
    resend many (by decide) reachMany
  have split : [] ++ (front ++ first :: back) ++ steps ++ (front' ++ last :: back') =
      front ++ first :: ((back ++ steps ++ front') ++ last :: back') := by simp
  rw [split] at reach
  have observed : ∀ part whole : List TransmitterStep, part ⊆ whole →
      ∀ output ∈ Machine.observed part, output ∈ Machine.observed whole := by
    intro part whole sub output member
    obtain ⟨step, inPart, seen⟩ := List.mem_flatMap.mp member
    exact List.mem_flatMap.mpr ⟨step, sub inPart, seen⟩
  have same := claim _ t _ reach front first (back ++ steps ++ front') last back' rfl ?_ o o' table table' f f'
    stored stored' (observed _ _ (by intro x; simp; tauto) _ built) (observed _ _ (by intro x; simp; tauto) _ built') ?_
  · rw [entries, entries'] at same
    have lengths := congrArg List.length same
    rw [List.length_replicate, List.length_replicate] at lengths
    exact absurd lengths (by decide)
  · simp only [tableChanges, List.countP_append, List.countP_cons, List.countP_nil] at changes few more ⊢
    omega
  · rw [File.wireInstanceId_eq, File.wireInstanceId_eq, isId, isId']
    decide

end Libflute

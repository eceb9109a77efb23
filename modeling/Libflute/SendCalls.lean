import Libflute.TransmitterObjects

/-! The calls of `send`: the TOIs they take, and what is left of one that is under way. -/

namespace Libflute

theorem FileDescription.assign_toi_ne_zero (fd : FileDescription) (tsi : Nat) {nextToi : UInt16}
    (positive : nextToi ≠ 0) : (fd.assign tsi nextToi).entry.toi ≠ 0 := by
  have assigned : (fd.assign tsi nextToi).entry.toi =
      if (if fd.tsi.any (· ≠ tsi) then 0 else fd.entry.toi) = 0 then nextToi.toNat
      else if fd.tsi.any (· ≠ tsi) then 0 else fd.entry.toi := rfl
  by_cases new : (if fd.tsi.any (· ≠ tsi) then 0 else fd.entry.toi) = 0
  · rw [assigned, if_pos new]
    exact fun zero => positive (UInt16.toNat_inj.mp zero)
  · rw [assigned, if_neg new]
    exact new

namespace Transmitter
variable {env : Env} {t t' : Transmitter} {e : TransmitterEvent} {log out : List TransmitterOutput}

/-- What only the calls of the application change. -/
def standing (t : Transmitter) : UInt16 × Bool := (t.toi, t.active)

theorem sendFdt_standing (env : Env) (t : Transmitter) (now : Nat) :
    (t.sendFdt env now).state.standing = t.standing := by
  rcases sendFdt_cases env t now with ⟨_, run⟩ | ⟨table, _, _, ⟨e, run⟩ | ⟨f, _, run⟩⟩ <;> rw [run] <;> rfl

theorem startSendFdt_standing (env : Env) (t : Transmitter) (now : Nat) (rest : List SendStep) :
    (t.startSendFdt env now rest).state.standing = t.standing := by
  rcases startSendFdt_cases env t now rest with ⟨_, run⟩ | ⟨table, _, _, ⟨e, run⟩ | ⟨f, _, run⟩⟩ <;> rw [run] <;> rfl

theorem fileTransmitted_standing (env : Env) (t : Transmitter) (object toi now : Nat) :
    (t.fileTransmitted env object toi now).state.standing = t.standing := by
  rcases fileTransmitted_cases env t object toi now with
    ⟨_, run⟩ | ⟨_, ⟨_, run⟩ | ⟨table, _, _, ⟨e, run⟩ | ⟨f, _, run⟩⟩⟩ <;> rw [run] <;> rfl

theorem sendNextPacket_standing (t : Transmitter) : t.sendNextPacket.state.standing = t.standing := by
  unfold sendNextPacket
  split
  · split
    · rfl
    · split
      · rfl
      · split
        · rfl
        · dsimp only
          split
          · rfl
          · split <;> rfl
  · rfl

theorem socketCompleted_standing {index now : Nat} {ok : Bool} {r : StepResult Unit}
    (run : t.socketCompleted env index ok now = some r) : r.state.standing = t.standing := by
  unfold socketCompleted at run
  split at run
  · cases run
  · split at run
    · dsimp only at run
      split at run
      · cases run
      · split at run
        · obtain rfl := Option.some.inj run
          rfl
        · split at run
          · obtain rfl := Option.some.inj run
            exact fileTransmitted_standing ..
          · obtain rfl := Option.some.inj run
            rfl
    · obtain rfl := Option.some.inj run
      rfl

theorem continueSend_standing {now : Nat} {r : StepResult Unit} (run : t.continueSend env now = some r) :
    r.state.standing = t.standing := by
  unfold continueSend at run
  split at run
  · cases run
  · obtain rfl := Option.some.inj run; rfl
  · obtain rfl := Option.some.inj run; rfl
  · obtain rfl := Option.some.inj run; rfl
  · split at run
    · cases run
    · obtain rfl := Option.some.inj run
      exact startSendFdt_standing ..
  · obtain rfl := Option.some.inj run; rfl

/-- The counter of TOIs only moves on, and only `activate` and `deactivate` start and stop the sending. -/
theorem step_standing (run : t.step env e = some (t', out)) :
    (t'.toi = t.toi ∨ t'.toi = t.nextToi) ∧ (e ≠ .activate → e ≠ .deactivate → t'.active = t.active) := by
  cases performed : t.perform env e with
  | none => simp [step, performed] at run
  | some r =>
    have state : t' = r.state := by
      rcases step_ok performed run with ⟨_, same, _⟩ | ⟨_, _, same, _⟩ <;> exact same
    have same : r.state.standing = t.standing →
        (r.state.toi = t.toi ∨ r.state.toi = t.nextToi) ∧ (e ≠ .activate → e ≠ .deactivate → r.state.active = t.active) :=
      fun stands => ⟨Or.inl (congrArg Prod.fst stands), fun _ _ => congrArg Prod.snd stands⟩
    rw [state]
    cases e with
    | sendData contentLocation contentType expires data now =>
      simp only [perform] at performed
      split at performed
      · obtain rfl := Option.some.inj performed
        unfold sendData
        dsimp only
        split
        · exact ⟨Or.inr rfl, fun _ _ => rfl⟩
        · next f _ =>
          have stands := startSendFdt_standing env { ({ t with toi := t.nextToi } : Transmitter).alloc f with
            fdt := t.fdt.add f.entry } now [.insertFile t.toi.toNat t.objects.length, .returns t.toi.toNat t.objects.length]
          exact ⟨Or.inr (congrArg Prod.fst stands), fun _ _ => congrArg Prod.snd stands⟩
      · cases performed
    | sendDescription fd =>
      simp only [perform] at performed
      split at performed
      · obtain rfl := Option.some.inj performed
        unfold sendDescription
        dsimp only
        by_cases needs : fd.needsToi t.tsi = true
        · split <;> exact ⟨Or.inr (if_pos needs), fun _ _ => rfl⟩
        · split <;> exact ⟨Or.inl (if_neg needs), fun _ _ => rfl⟩
      · cases performed
    | continueSend now => exact same (continueSend_standing performed)
    | fdtSendTick now =>
      simp only [perform, Option.some.injEq] at performed
      subst performed
      split at same
      · next active => rw [if_pos active]; exact same (sendFdt_standing ..)
      · next idle => rw [if_neg idle]; exact same rfl
    | sendNextPacket =>
      obtain rfl := Option.some.inj performed
      exact same (sendNextPacket_standing t)
    | socketCompleted index ok now => exact same (socketCompleted_standing performed)
    | udpTunnelAddress => obtain rfl := Option.some.inj performed; exact same rfl
    | registerCompletionCallback => obtain rfl := Option.some.inj performed; exact same rfl
    | activate =>
      obtain rfl := Option.some.inj performed
      refine ⟨Or.inl ?_, fun other => absurd rfl other⟩
      unfold activate
      split
      · rfl
      · exact congrArg Prod.fst (sendNextPacket_standing { t with active := true })
    | deactivate => obtain rfl := Option.some.inj performed; exact ⟨Or.inl rfl, fun _ other => absurd rfl other⟩

theorem nextToi_ne_zero (t : Transmitter) : t.nextToi ≠ 0 := by
  unfold nextToi
  split
  · decide
  · assumption

theorem step_toi_ne_zero (counter : t.toi ≠ 0) (run : t.step env e = some (t', out)) : t'.toi ≠ 0 := by
  rcases (step_standing run).1 with same | next
  · exact same ▸ counter
  · exact next ▸ nextToi_ne_zero t

/-- What can be left of a call of either overload of `send`. -/
def CallShape (call : List SendStep) : Prop :=
  ∃ n toi o, toi ≠ 0 ∧ (call <:+ [.storeFdt n, .markSent, .insertFile toi o, .returns toi o] ∨
    call <:+ [.insertFile toi o, .addEntry o, .returns toi o] ∨ call <:+ [.storeFdt n, .markSent, .returns toi o])

theorem CallShape.nil : CallShape [] := ⟨0, 1, 0, Nat.one_ne_zero, Or.inl (List.nil_suffix)⟩

theorem CallShape.tail {step : SendStep} {rest : List SendStep} (shape : CallShape (step :: rest)) :
    CallShape rest := by
  obtain ⟨n, toi, o, data, shape⟩ := shape
  have shorter : rest <:+ step :: rest := List.suffix_cons step rest
  exact ⟨n, toi, o, data, shape.imp shorter.trans (Or.imp shorter.trans shorter.trans)⟩

theorem CallShape.addEntry {o : Nat} {rest : List SendStep} (shape : CallShape (.addEntry o :: rest)) :
    ∃ toi, toi ≠ 0 ∧ rest = [.returns toi o] := by
  obtain ⟨n, toi, p, data, shape | shape | shape⟩ := shape
  · simp [List.suffix_cons_iff] at shape
  · simp only [List.suffix_cons_iff, List.cons.injEq, reduceCtorEq, false_and, SendStep.addEntry.injEq,
      List.suffix_nil, false_or, or_false] at shape
    obtain ⟨rfl, rfl⟩ := shape
    exact ⟨toi, data, rfl⟩
  · simp [List.suffix_cons_iff] at shape

theorem CallShape.insertFile {toi o : Nat} {rest : List SendStep} (shape : CallShape (.insertFile toi o :: rest)) :
    toi ≠ 0 ∧ (rest = [.returns toi o] ∨ rest = [.addEntry o, .returns toi o]) := by
  obtain ⟨n, k, p, data, shape | shape | shape⟩ := shape
  · simp only [List.suffix_cons_iff, List.cons.injEq, reduceCtorEq, false_and, SendStep.insertFile.injEq,
      List.suffix_nil, false_or, or_false] at shape
    obtain ⟨⟨rfl, rfl⟩, rfl⟩ := shape
    exact ⟨data, Or.inl rfl⟩
  · simp only [List.suffix_cons_iff, List.cons.injEq, reduceCtorEq, false_and, SendStep.insertFile.injEq,
      List.suffix_nil, or_false] at shape
    obtain ⟨⟨rfl, rfl⟩, rfl⟩ := shape
    exact ⟨data, Or.inr rfl⟩
  · simp [List.suffix_cons_iff] at shape

theorem CallShape.returns {toi o : Nat} {rest : List SendStep} (shape : CallShape (.returns toi o :: rest)) :
    rest = [] := by
  obtain ⟨n, k, p, _, shape | shape | shape⟩ := shape <;>
  · simp only [List.suffix_cons_iff, List.cons.injEq, reduceCtorEq, false_and, SendStep.returns.injEq,
      List.suffix_nil, false_or, or_false] at shape
    exact shape.2

theorem Effect.callShape (effect : Effect env t e t' out) (counter : t.toi ≠ 0) (shape : CallShape t.call) :
    CallShape t'.call := by
  have rest : ∀ {step rest}, t.call = step :: rest → CallShape rest := fun same => (same ▸ shape).tail
  cases effect with
  | settings _ queue => rwa [show t'.call = t.call from congrArg SendQueue.call queue]
  | rejected _ queue => rwa [show t'.call = t.call from congrArg SendQueue.call queue]
  | hands is => rcases is with ⟨rfl, _⟩ | ⟨rfl, _⟩ <;> exact shape
  | dataStarted =>
    exact ⟨_, _, _, fun none => counter (UInt16.toNat_inj.mp none), Or.inl (List.suffix_refl _)⟩
  | @described fd f toi idle made =>
    have same : f.entry.toi = (fd.assign t.tsi t.toi).entry.toi := (File.ofDescription_new made).2.2.1
    exact ⟨0, _, _, same ▸ fd.assign_toi_ne_zero t.tsi counter, Or.inr (Or.inl (List.suffix_refl _))⟩
  | storedFdt call => exact rest call
  | markedSent call => exact rest call
  | inserted call => exact rest call
  | addFailed => exact .nil
  | added call =>
    obtain ⟨toi, data, rfl⟩ := (call ▸ shape : CallShape _).addEntry
    exact ⟨_, _, _, data, Or.inr (Or.inr (List.suffix_refl _))⟩
  | returned call => exact rest call
  | _ => exact shape

end Transmitter
end Libflute

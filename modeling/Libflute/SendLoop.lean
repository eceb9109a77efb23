import Libflute.SendCalls

/-! The sending loop: the invocations of `send_next_packet` that are posted or wait
for their timer, and the timer that repeats the FDT, around the transmitter. -/

namespace Libflute

/-- A transmitter with its timers and the handlers that are ready to run; times
are in microseconds. -/
structure SendLoop where
  transmitter : Transmitter
  rateLimit : Nat
  clock : Nat := 0
  /-- When the wait on `_send_timer` ends, if there is one. -/
  sendTimer : Option Nat := none
  fdtTimer : Option Nat := none
  /-- Invocations of `send_next_packet` that are posted or whose wait has ended. -/
  ready : Nat := 0
  /-- Waits on `_fdt_timer` that have ended, each with whether it was aborted. -/
  fdtReady : List Bool := []

/-- What is seen of the transmitter, with the time and the rate limit of the step. -/
structure SendLoopOutput where
  time : Nat
  rateLimit : Nat
  output : TransmitterOutput

inductive SendLoopEvent
  /-- A call of the application or the completion of a send. -/
  | outside (event : TransmitterEvent)
  | setRateLimit (limit : Nat)
  | activate
  | deactivate
  | runSend
  | runFdt (index now : Nat)
  | sendTimerExpires
  | fdtTimerExpires
  | wait (duration : Nat)

/-- The calls that the timers are about. -/
def TransmitterEvent.timed : TransmitterEvent → Bool
  | .fdtSendTick _ => true
  | .sendNextPacket => true
  | .activate => true
  | .deactivate => true
  | _ => false

/-- The size of a packet that is handed to the socket. -/
def TransmitterOutput.packetSize : TransmitterOutput → Option Nat
  | .handed _ _ _ _ packet _ => some packet.length
  | _ => none

def bytesQueued (seen : List TransmitterOutput) : Nat := (seen.filterMap TransmitterOutput.packetSize).sum

namespace SendLoop

/-- `cancel` on the send timer: a wait ends, and its handler still runs. -/
def cancelSend (l : SendLoop) : SendLoop :=
  { l with
    sendTimer := none
    ready := if l.sendTimer.isSome then l.ready + 1 else l.ready }

def cancelFdt (l : SendLoop) : SendLoop :=
  { l with
    fdtTimer := none
    fdtReady := if l.fdtTimer.isSome then l.fdtReady ++ [true] else l.fdtReady }

/-- `expires_from_now`, which cancels, and `async_wait` on the send timer. -/
def waitSend (l : SendLoop) (delay : Nat) : SendLoop :=
  { l.cancelSend with sendTimer := some (l.clock + delay) }

def startFdtRepeatTimer (l : SendLoop) : SendLoop :=
  { l.cancelFdt with fdtTimer := some (l.clock + Transmitter.fdtRepeatInterval * 1000000) }

/-- The end of `send_next_packet`; `duration` is its computation on `double`s of
the microseconds for a number of bytes at a rate limit. -/
def reschedule (duration : Nat → Nat → Nat) (l : SendLoop) (bytes : Nat) : SendLoop :=
  if bytes = 0 then l.waitSend 10000
  else if l.rateLimit = 0 then { l with ready := l.ready + 1 }
  else l.waitSend (duration bytes l.rateLimit)

def stamp (l : SendLoop) (seen : List TransmitterOutput) : List SendLoopOutput :=
  seen.map (⟨l.clock, l.rateLimit, ·⟩)

/-- A call on the transmitter and, unless it throws, what its caller does next. -/
def calling (l : SendLoop) (r : StepResult Unit) (after : SendLoop → SendLoop) :
    Option (SendLoop × List SendLoopOutput) :=
  match r.ending with
  | .ok () => some (after { l with transmitter := r.state }, l.stamp r.seen)
  | .error (.throws what) => some ({ l with transmitter := r.state }, l.stamp (r.seen ++ [.threw what]))
  | .error _ => none

def sendNextPacket (duration : Nat → Nat → Nat) (l : SendLoop) : Option (SendLoop × List SendLoopOutput) :=
  let r := l.transmitter.sendNextPacket
  l.calling r fun l => if l.transmitter.active then l.reschedule duration (bytesQueued r.seen) else l

def fdtSendTick (env : Env) (l : SendLoop) (aborted : Bool) (now : Nat) :
    Option (SendLoop × List SendLoopOutput) :=
  if aborted then some (l, [])
  else if l.transmitter.active then l.calling (l.transmitter.sendFdt env now) startFdtRepeatTimer
  else some (l, [])

def activate (duration : Nat → Nat → Nat) (l : SendLoop) : Option (SendLoop × List SendLoopOutput) :=
  if l.transmitter.active then some (l, [])
  else sendNextPacket duration
    (startFdtRepeatTimer { l with transmitter := { l.transmitter with active := true } })

def deactivate (l : SendLoop) : SendLoop :=
  if l.transmitter.active then
    (cancelFdt { l with transmitter := { l.transmitter with active := false } }).cancelSend
  else l

def step (env : Env) (duration : Nat → Nat → Nat) (l : SendLoop) :
    SendLoopEvent → Option (SendLoop × List SendLoopOutput)
  | .outside event =>
    if event.timed then none
    else (l.transmitter.step env event).map fun r => ({ l with transmitter := r.1 }, l.stamp r.2)
  | .setRateLimit limit => some ({ l with rateLimit := limit }, [])
  | .activate => l.activate duration
  | .deactivate => some (l.deactivate, [])
  | .runSend => if l.ready = 0 then none else sendNextPacket duration { l with ready := l.ready - 1 }
  | .runFdt index now =>
    match l.fdtReady[index]? with
    | none => none
    | some aborted => fdtSendTick env { l with fdtReady := l.fdtReady.eraseIdx index } aborted now
  | .sendTimerExpires =>
    if l.sendTimer.any (· ≤ l.clock) then some ({ l with sendTimer := none, ready := l.ready + 1 }, []) else none
  | .fdtTimerExpires =>
    if l.fdtTimer.any (· ≤ l.clock) then
      some ({ l with fdtTimer := none, fdtReady := l.fdtReady ++ [false] }, [])
    else none
  | .wait duration => some ({ l with clock := l.clock + duration }, [])

/-- The constructor, whose first `send_next_packet` finds no file. -/
def create (duration : Nat → Nat → Nat) (t : Transmitter) (rateLimit : Nat) : SendLoop :=
  if t.active then
    (startFdtRepeatTimer { transmitter := t, rateLimit := rateLimit }).reschedule duration 0
  else { transmitter := t, rateLimit := rateLimit }

/-- The invocations of `send_next_packet` that are still to come. -/
def pending (l : SendLoop) : Nat := l.ready + if l.sendTimer.isSome then 1 else 0

end SendLoop

/-- Runs of a transmitter on an event loop from its constructor. -/
def sendLoop (env : Env) (duration : Nat → Nat → Nat) : Machine SendLoop SendLoopEvent SendLoopOutput where
  init l := ∃ t rateLimit, (transmitter env).init t ∧ l = .create duration t rateLimit
  step := SendLoop.step env duration

namespace Transmitter

/-- Only `send_next_packet` and `activate` hand packets over. -/
theorem step_quiet {env : Env} {t t' : Transmitter} {e : TransmitterEvent} {out : List TransmitterOutput}
    (sound : t.queue.Sound) (run : t.step env e = some (t', out)) (other : e ≠ .sendNextPacket)
    (other' : e ≠ .activate) : ∀ output ∈ out, output.packetSize = none := by
  intro output member
  cases output with
  | handed o toi fecOti symbols packet datagram =>
    obtain ⟨_, _, _, _, ⟨_, same⟩ | ⟨_, same⟩, _⟩ := ((step_effect sound run).traffic sound).handed_seen member
    · exact absurd same other
    · exact absurd same other'
  | _ => rfl

end Transmitter

theorem AlcPacket.length_build_ne_zero {tsi toi maxSize fdtInstanceId : Nat} {fecOti : FecOti}
    {symbols : List EncodingSymbol} {packet : List UInt8}
    (built : AlcPacket.build tsi toi fecOti symbols maxSize fdtInstanceId = .ok packet) : packet.length ≠ 0 := by
  obtain ⟨payload, _, made⟩ := bind_eq_ok.mp built
  obtain rfl := Except.ok.inj made
  have header := AlcPacket.length_header tsi toi fecOti fdtInstanceId
  rw [List.length_append, header]
  split <;> omega

namespace SendLoop
variable {env : Env} {duration : Nat → Nat → Nat} {l l' : SendLoop} {e : SendLoopEvent}
  {out log : List SendLoopOutput}

@[simp] theorem stamp_output (l : SendLoop) (seen : List TransmitterOutput) :
    (l.stamp seen).map SendLoopOutput.output = seen := by
  induction seen with
  | nil => rfl
  | cons output rest ih => exact congrArg (output :: ·) ih

@[simp] theorem waitSend_transmitter (l : SendLoop) (delay : Nat) : (l.waitSend delay).transmitter = l.transmitter :=
  rfl

@[simp] theorem startFdtRepeatTimer_transmitter (l : SendLoop) :
    l.startFdtRepeatTimer.transmitter = l.transmitter := rfl

@[simp] theorem reschedule_transmitter (duration : Nat → Nat → Nat) (l : SendLoop) (bytes : Nat) :
    (l.reschedule duration bytes).transmitter = l.transmitter := by
  unfold reschedule
  split_ifs <;> rfl

@[simp] theorem create_transmitter (duration : Nat → Nat → Nat) (t : Transmitter) (rateLimit : Nat) :
    (create duration t rateLimit).transmitter = t := by
  unfold create
  split_ifs
  · simp only [reschedule_transmitter, startFdtRepeatTimer_transmitter]
  · rfl

/-- A call on the transmitter is one of its steps. -/
theorem calling_step {event : TransmitterEvent} {r : StepResult Unit} {after : SendLoop → SendLoop}
    {t : Transmitter} (performed : t.perform env event = some r)
    (keeps : ∀ m : SendLoop, (after m).transmitter = m.transmitter)
    (run : l.calling r after = some (l', out)) :
    t.step env event = some (l'.transmitter, out.map SendLoopOutput.output) := by
  unfold calling at run
  unfold Transmitter.step
  rw [performed]
  split at run
  · next ending =>
    obtain ⟨rfl, rfl⟩ := Prod.mk.inj (Option.some.inj run)
    simp only [ending, keeps, stamp_output]
  · next what ending =>
    obtain ⟨rfl, rfl⟩ := Prod.mk.inj (Option.some.inj run)
    simp only [ending, stamp_output]
  · cases run

/-- A step of the loop is a step of its transmitter, or nothing to it. -/
theorem step_transmitter (run : l.step env duration e = some (l', out)) :
    (l'.transmitter = l.transmitter ∧ out = []) ∨ ∃ event,
      l.transmitter.step env event = some (l'.transmitter, out.map SendLoopOutput.output) := by
  have sending : ∀ (m : SendLoop) event, l.transmitter.perform env event = some m.transmitter.sendNextPacket →
      sendNextPacket duration m = some (l', out) → ∃ event,
      l.transmitter.step env event = some (l'.transmitter, out.map SendLoopOutput.output) := by
    intro m event performed run
    unfold sendNextPacket at run
    refine ⟨event, calling_step performed ?_ run⟩
    intro n
    split_ifs
    · exact reschedule_transmitter ..
    · rfl
  cases e with
  | outside event =>
    simp only [step] at run
    split at run
    · cases run
    · obtain ⟨⟨t, seen⟩, same, made⟩ := Option.map_eq_some_iff.mp run
      obtain ⟨rfl, rfl⟩ := Prod.mk.inj made
      exact Or.inr ⟨event, by simpa only [stamp_output] using same⟩
  | setRateLimit limit =>
    obtain ⟨rfl, rfl⟩ := Prod.mk.inj (Option.some.inj run)
    exact Or.inl ⟨rfl, rfl⟩
  | activate =>
    simp only [step, activate] at run
    split at run
    · obtain ⟨rfl, rfl⟩ := Prod.mk.inj (Option.some.inj run)
      exact Or.inl ⟨rfl, rfl⟩
    · next idle =>
      refine Or.inr (sending _ .activate ?_ run)
      simp only [Transmitter.perform, Transmitter.activate, if_neg idle, startFdtRepeatTimer_transmitter]
  | deactivate =>
    obtain ⟨rfl, rfl⟩ := Prod.mk.inj (Option.some.inj run)
    refine Or.inr ⟨.deactivate, ?_⟩
    have same : l.deactivate.transmitter = l.transmitter.deactivate := by
      unfold deactivate Transmitter.deactivate
      split
      · rfl
      · next idle => rw [← Bool.eq_false_of_not_eq_true idle]
    rw [same]
    rfl
  | runSend =>
    simp only [step] at run
    split at run
    · cases run
    · exact Or.inr (sending { l with ready := l.ready - 1 } .sendNextPacket rfl run)
  | runFdt index now =>
    simp only [step] at run
    split at run
    · cases run
    · next aborted _ =>
      unfold fdtSendTick at run
      split at run
      · obtain ⟨rfl, rfl⟩ := Prod.mk.inj (Option.some.inj run)
        exact Or.inl ⟨rfl, rfl⟩
      · split at run
        · next active =>
          refine Or.inr ⟨.fdtSendTick now, calling_step ?_ startFdtRepeatTimer_transmitter run⟩
          exact congrArg some (if_pos active)
        · obtain ⟨rfl, rfl⟩ := Prod.mk.inj (Option.some.inj run)
          exact Or.inl ⟨rfl, rfl⟩
  | sendTimerExpires =>
    simp only [step] at run
    split at run
    · obtain ⟨rfl, rfl⟩ := Prod.mk.inj (Option.some.inj run)
      exact Or.inl ⟨rfl, rfl⟩
    · cases run
  | fdtTimerExpires =>
    simp only [step] at run
    split at run
    · obtain ⟨rfl, rfl⟩ := Prod.mk.inj (Option.some.inj run)
      exact Or.inl ⟨rfl, rfl⟩
    · cases run
  | wait duration =>
    obtain ⟨rfl, rfl⟩ := Prod.mk.inj (Option.some.inj run)
    exact Or.inl ⟨rfl, rfl⟩

theorem reach_transmitter {guard : SendLoop → List SendLoopOutput → SendLoopEvent → Prop}
    (reach : (sendLoop env duration).Reach guard l log) :
    (Libflute.transmitter env).Reach Machine.always l.transmitter (log.map SendLoopOutput.output) := by
  refine reach.project SendLoop.transmitter SendLoopOutput.output ?_ ?_
  · rintro s ⟨t, rateLimit, first, rfl⟩
    rwa [create_transmitter]
  · intro s log e s' out _ _ run
    exact (step_transmitter run).imp_right fun ⟨event, taken⟩ => ⟨event, trivial, taken⟩

theorem reach_sound {guard : SendLoop → List SendLoopOutput → SendLoopEvent → Prop}
    (reach : (sendLoop env duration).Reach guard l log) : l.transmitter.queue.Sound :=
  Transmitter.reach_sound (reach_transmitter reach)

theorem step_sound (sound : l.transmitter.queue.Sound) (run : l.step env duration e = some (l', out)) :
    l'.transmitter.queue.Sound := by
  rcases step_transmitter run with ⟨same, _⟩ | ⟨event, taken⟩
  · rwa [same]
  · exact (Transmitter.step_effect sound taken).sound sound

/-- `send_next_packet` on the loop: nothing while inactive, a wait of ten
milliseconds when there is nothing to send, or a packet and its delay. -/
theorem sendNextPacket_spec (sound : l.transmitter.queue.Sound)
    (run : sendNextPacket duration l = some (l', out)) :
    (l.transmitter.active = false ∧ l' = l ∧ out = []) ∨
    (l.transmitter.active = true ∧ l' = l.waitSend 10000 ∧ out = []) ∨
    (l.transmitter.active = true ∧ ∃ t output bytes, t.active = true ∧ output.packetSize = some bytes ∧
      l' = reschedule duration { l with transmitter := t } bytes ∧ bytes ≠ 0 ∧
      out = [⟨l.clock, l.rateLimit, output⟩]) := by
  rcases Transmitter.sendNextPacket_cases l.transmitter fun o f found => (sound.objects o f found).1 with
    ⟨idle, _⟩ | ⟨k, o, f, n, packet, hands⟩ | ⟨_, _, _, _, _, _, stuck⟩
  · simp only [sendNextPacket, calling, idle, Option.some.injEq, Prod.mk.injEq] at run
    obtain ⟨rfl, rfl⟩ := run
    cases active : l.transmitter.active with
    | false => exact Or.inl ⟨rfl, by simp, rfl⟩
    | true => exact Or.inr (Or.inl ⟨rfl, by simp [reschedule, bytesQueued], rfl⟩)
  · have size := AlcPacket.length_build_ne_zero hands.build
    have active : l.transmitter.sendNextPacket.state.active = true := by rw [hands.run]; exact hands.active
    have ending : l.transmitter.sendNextPacket.ending = .ok () := by rw [hands.run]
    have seen : bytesQueued l.transmitter.sendNextPacket.seen = packet.length := by
      rw [hands.run]
      exact Nat.add_zero _
    simp only [sendNextPacket, calling, ending, active, seen, if_true, Option.some.injEq, Prod.mk.injEq] at run
    obtain ⟨rfl, rfl⟩ := run
    refine Or.inr (Or.inr ⟨hands.active, _, .handed o f.entry.toi f.fecOti ((f.unsent.take n).map f.encoded) packet
      (l.transmitter.datagram packet), packet.length, active, rfl, rfl, size, ?_⟩)
    rw [hands.run]
    rfl
  · simp [sendNextPacket, calling, stuck] at run

theorem mem_stamp {entry : SendLoopOutput} {seen : List TransmitterOutput} (member : entry ∈ l.stamp seen) :
    entry.output ∈ seen := by
  obtain ⟨output, inSeen, rfl⟩ := List.mem_map.mp member
  exact inSeen

/-- What a step does to the send timer and its handlers. -/
inductive SendEffect (duration : Nat → Nat → Nat) (l : SendLoop) :
    SendLoopEvent → SendLoop → List SendLoopOutput → Prop
  | pass {e : SendLoopEvent} {l' : SendLoop} {out : List SendLoopOutput} :
      l'.transmitter.active = l.transmitter.active → l'.ready = l.ready → l'.sendTimer = l.sendTimer → l.clock ≤ l'.clock → (∀ entry ∈ out, entry.output.packetSize = none) →
      SendEffect duration l e l' out
  | starts {l' : SendLoop} {out : List SendLoopOutput} : l.transmitter.active = false →
      sendNextPacket duration
        (startFdtRepeatTimer { l with transmitter := { l.transmitter with active := true } }) = some (l', out) →
      SendEffect duration l .activate l' out
  | halts : l.transmitter.active = true →
      SendEffect duration l .deactivate
        (cancelFdt { l with transmitter := { l.transmitter with active := false } }).cancelSend []
  | invoked {l' : SendLoop} {out : List SendLoopOutput} : l.ready ≠ 0 →
      sendNextPacket duration { l with ready := l.ready - 1 } = some (l', out) →
      SendEffect duration l .runSend l' out
  | expired {expiry : Nat} : l.sendTimer = some expiry → expiry ≤ l.clock →
      SendEffect duration l .sendTimerExpires { l with sendTimer := none, ready := l.ready + 1 } []

theorem step_sendEffect (sound : l.transmitter.queue.Sound) (run : l.step env duration e = some (l', out)) :
    SendEffect duration l e l' out := by
  cases e with
  | outside event =>
    simp only [step] at run
    split at run
    · cases run
    · next untimed =>
      obtain ⟨⟨t, seen⟩, taken, made⟩ := Option.map_eq_some_iff.mp run
      obtain ⟨rfl, rfl⟩ := Prod.mk.inj made
      have other : ∀ timed, TransmitterEvent.timed timed = true → event ≠ timed := by
        rintro timed is rfl
        exact untimed is
      refine .pass ((Transmitter.step_standing taken).2 (other _ rfl) (other _ rfl)) rfl rfl le_rfl ?_
      intro entry member
      exact Transmitter.step_quiet sound taken (other _ rfl) (other _ rfl) _ (mem_stamp member)
  | setRateLimit limit =>
    obtain ⟨rfl, rfl⟩ := Prod.mk.inj (Option.some.inj run)
    exact .pass rfl rfl rfl le_rfl (by simp)
  | activate =>
    simp only [step, activate] at run
    split at run
    · obtain ⟨rfl, rfl⟩ := Prod.mk.inj (Option.some.inj run)
      exact .pass rfl rfl rfl le_rfl (by simp)
    · next idle => exact .starts (by simpa using idle) run
  | deactivate =>
    obtain ⟨rfl, rfl⟩ := Prod.mk.inj (Option.some.inj run)
    unfold deactivate
    split
    · next active => exact .halts active
    · exact .pass rfl rfl rfl le_rfl (by simp)
  | runSend =>
    simp only [step] at run
    split at run
    · cases run
    · next some => exact .invoked some run
  | runFdt index now =>
    simp only [step] at run
    split at run
    · cases run
    · next aborted _ =>
      unfold fdtSendTick at run
      split at run
      · obtain ⟨rfl, rfl⟩ := Prod.mk.inj (Option.some.inj run)
        exact .pass rfl rfl rfl le_rfl (by simp)
      · split at run
        · next active =>
          have performed : l.transmitter.perform env (.fdtSendTick now) = some (l.transmitter.sendFdt env now) :=
            congrArg some (if_pos active)
          have taken := calling_step performed startFdtRepeatTimer_transmitter run
          have same := (Transmitter.step_standing taken).2 (by simp) (by simp)
          have quiet := Transmitter.step_quiet sound taken (by simp) (by simp)
          have silent : ∀ entry ∈ out, entry.output.packetSize = none :=
            fun entry member => quiet _ (List.mem_map_of_mem member)
          unfold calling at run
          split at run
          · obtain ⟨rfl, rfl⟩ := Prod.mk.inj (Option.some.inj run)
            exact .pass same rfl rfl le_rfl silent
          · obtain ⟨rfl, rfl⟩ := Prod.mk.inj (Option.some.inj run)
            exact .pass same rfl rfl le_rfl silent
          · cases run
        · obtain ⟨rfl, rfl⟩ := Prod.mk.inj (Option.some.inj run)
          exact .pass rfl rfl rfl le_rfl (by simp)
  | sendTimerExpires =>
    simp only [step] at run
    split at run
    · next expires =>
      obtain ⟨rfl, rfl⟩ := Prod.mk.inj (Option.some.inj run)
      obtain ⟨expiry, armed, past⟩ := (Option.any_eq_true _ _).mp expires
      exact .expired armed (of_decide_eq_true past)
    · cases run
  | fdtTimerExpires =>
    simp only [step] at run
    split at run
    · obtain ⟨rfl, rfl⟩ := Prod.mk.inj (Option.some.inj run)
      exact .pass rfl rfl rfl le_rfl (by simp)
    · cases run
  | wait passing =>
    obtain ⟨rfl, rfl⟩ := Prod.mk.inj (Option.some.inj run)
    exact .pass rfl rfl rfl (Nat.le_add_right ..) (by simp)

end SendLoop
end Libflute

import Libflute.Reporting
import Libflute.SendLoop

/-! How many invocations of `send_next_packet` are pending, and when they send. -/

namespace Libflute

/-- The delay that was computed for a packet; without a rate limit there is none to wait for. -/
def SendLoopOutput.delay (duration : Nat → Nat → Nat) (entry : SendLoopOutput) : Option Nat :=
  entry.output.packetSize.map fun bytes => if entry.rateLimit = 0 then 0 else duration bytes entry.rateLimit

/-- The delays of all packets have passed at a time. -/
def Passed (duration : Nat → Nat → Nat) (log : List SendLoopOutput) (time : Nat) : Prop :=
  ∀ entry ∈ log, ∀ delay, entry.delay duration = some delay → entry.time + delay ≤ time

/-- No packet is sent before the delay of a packet before it has passed. -/
def Paced (duration : Nat → Nat → Nat) (log : List SendLoopOutput) : Prop :=
  log.Pairwise fun earlier later => later.output.packetSize.isSome = true →
    ∀ delay, earlier.delay duration = some delay → earlier.time + delay ≤ later.time

section
variable {duration : Nat → Nat → Nat} {log out : List SendLoopOutput} {time : Nat}

theorem Passed.mono (passed : Passed duration log time) {later : Nat} (after : time ≤ later) :
    Passed duration log later :=
  fun entry member delay computed => (passed entry member delay computed).trans after

theorem Passed.append_quiet (passed : Passed duration log time)
    (quiet : ∀ entry ∈ out, entry.output.packetSize = none) : Passed duration (log ++ out) time := by
  intro entry member delay computed
  rcases List.mem_append.mp member with old | new
  · exact passed entry old delay computed
  · simp [SendLoopOutput.delay, quiet entry new] at computed

theorem Passed.concat (passed : Passed duration log time) {entry : SendLoopOutput}
    (next : ∀ delay, entry.delay duration = some delay → entry.time + delay ≤ time) :
    Passed duration (log ++ [entry]) time := by
  intro other member delay computed
  rcases List.mem_append.mp member with old | new
  · exact passed other old delay computed
  · obtain rfl := List.mem_singleton.mp new
    exact next delay computed

theorem Paced.append_quiet (paced : Paced duration log) (quiet : ∀ entry ∈ out, entry.output.packetSize = none) :
    Paced duration (log ++ out) := by
  refine List.pairwise_append.mpr ⟨paced, List.pairwise_iff_forall_sublist.mpr ?_, ?_⟩
  · intro earlier later both packet
    have member : later ∈ out := both.subset (by simp)
    simp [quiet later member] at packet
  · intro earlier _ later member packet
    simp [quiet later member] at packet

theorem Paced.concat (paced : Paced duration log) {entry : SendLoopOutput}
    (passed : Passed duration log entry.time) : Paced duration (log ++ [entry]) := by
  refine List.pairwise_append.mpr ⟨paced, List.pairwise_singleton .., ?_⟩
  intro earlier member later last _ delay computed
  obtain rfl := List.mem_singleton.mp last
  exact passed earlier member delay computed

theorem delay_of_packet (duration : Nat → Nat → Nat) {entry : SendLoopOutput}
    (sent : entry.output.packetSize.isSome = true) : ∃ delay, entry.delay duration = some delay := by
  obtain ⟨bytes, size⟩ := Option.isSome_iff_exists.mp sent
  exact ⟨_, congrArg (Option.map _) size⟩

/-- Between two packets lie all the delays from the first one on. -/
theorem Paced.total {first last : SendLoopOutput} {middle : List SendLoopOutput}
    (paced : Paced duration (first :: (middle ++ [last]))) (sent : first.output.packetSize.isSome = true)
    (sent' : last.output.packetSize.isSome = true) :
    first.time + ((first :: middle).filterMap (SendLoopOutput.delay duration)).sum ≤ last.time := by
  induction middle generalizing first with
  | nil =>
    obtain ⟨delay, computed⟩ := delay_of_packet duration sent
    have passed := (List.pairwise_cons.mp paced).1 last (by simp) sent' delay computed
    simpa [computed] using passed
  | cons next rest ih =>
    obtain ⟨ahead, tail⟩ := List.pairwise_cons.mp paced
    cases size : next.output.packetSize with
    | none =>
      have silent : next.delay duration = none := by simp only [SendLoopOutput.delay, size, Option.map_none]
      have shorter : Paced duration (first :: (rest ++ [last])) :=
        List.pairwise_cons.mpr ⟨fun later member => ahead later (List.mem_cons_of_mem _ member),
          (List.pairwise_cons.mp tail).2⟩
      simpa [List.filterMap_cons, silent] using ih shorter sent
    | some bytes =>
      have later := ih tail (by simp [size])
      obtain ⟨delay, computed⟩ := delay_of_packet duration sent
      have passed := ahead next List.mem_cons_self (by simp [size]) delay computed
      rw [List.filterMap_cons_some computed, List.sum_cons]
      omega

end

/-- Whether an event leaves an active transmitter active. -/
def SendLoopEvent.keepsActive : SendLoopEvent → Bool
  | .deactivate => false
  | _ => true

namespace SendLoop
variable {env : Env} {duration : Nat → Nat → Nat} {l l' : SendLoop} {e : SendLoopEvent}
  {out log : List SendLoopOutput}

/-- At most one invocation is pending while the transmitter is active, and packets wait for those before them. -/
structure Single (duration : Nat → Nat → Nat) (l : SendLoop) (log : List SendLoopOutput) : Prop where
  one : l.transmitter.active = true → l.pending ≤ 1
  paced : Paced duration log

/-- `activate` finds no invocation left of an earlier loop, and the delay of every packet over. -/
def ActivatesAtRest (duration : Nat → Nat → Nat) (l : SendLoop) (log : List SendLoopOutput)
    (e : SendLoopEvent) : Prop :=
  e = .activate → l.transmitter.active = false → l.pending = 0 ∧ Passed duration log l.clock

/-- One loop, whose next invocation comes when the delays are over. -/
structure Looping (duration : Nat → Nat → Nat) (l : SendLoop) (log : List SendLoopOutput) : Prop
    extends Single duration l log where
  timed : ∀ expiry, l.sendTimer = some expiry → Passed duration log expiry
  due : l.transmitter.active = true → l.ready ≠ 0 → Passed duration log l.clock

theorem pending_eq_zero : l.pending = 0 ↔ l.ready = 0 ∧ l.sendTimer = none := by
  unfold pending
  cases l.sendTimer <;> simp

/-- An invocation of `send_next_packet` with no other pending, after all delays. -/
theorem Looping.send (sound : l.transmitter.queue.Sound) (paced : Paced duration log)
    (rest : l.transmitter.active = true → l.pending = 0 ∧ Passed duration log l.clock)
    (timed : ∀ expiry, l.sendTimer = some expiry → Passed duration log expiry)
    (run : sendNextPacket duration l = some (l', out)) : Looping duration l' (log ++ out) := by
  rcases sendNextPacket_spec sound run with ⟨idle, rfl, rfl⟩ | ⟨active, rfl, rfl⟩ |
    ⟨active, t, output, bytes, _, size, rfl, some, rfl⟩
  · rw [List.append_nil]
    exact ⟨⟨fun active => absurd active (by simp [idle]), paced⟩, timed, fun active => absurd active (by simp [idle])⟩
  · obtain ⟨none, passed⟩ := rest active
    obtain ⟨none, unarmed⟩ := pending_eq_zero.mp none
    rw [List.append_nil]
    refine ⟨⟨fun _ => ?_, paced⟩, fun expiry armed => ?_, fun _ left => ?_⟩
    · simp [pending, waitSend, cancelSend, none, unarmed]
    · obtain rfl := Option.some.inj armed
      exact passed.mono (Nat.le_add_right ..)
    · simp [waitSend, cancelSend, none, unarmed] at left
  · obtain ⟨none, passed⟩ := rest active
    obtain ⟨none, unarmed⟩ := pending_eq_zero.mp none
    have paced' : Paced duration (log ++ [⟨l.clock, l.rateLimit, output⟩]) := paced.concat passed
    by_cases unlimited : l.rateLimit = 0
    · have after : Passed duration (log ++ [⟨l.clock, l.rateLimit, output⟩]) l.clock := by
        refine passed.concat fun delay computed => ?_
        simp only [SendLoopOutput.delay, size, unlimited, if_true, Option.map_some, Option.some.injEq] at computed
        exact computed ▸ le_rfl
      simp only [reschedule, if_neg some, if_pos unlimited]
      refine ⟨⟨fun _ => ?_, paced'⟩, fun expiry armed => ?_, fun _ _ => after⟩
      · simp [pending, none, unarmed]
      · simp [unarmed] at armed
    · simp only [reschedule, if_neg some, if_neg unlimited]
      refine ⟨⟨fun _ => ?_, paced'⟩, fun expiry armed => ?_, fun _ left => ?_⟩
      · simp [pending, waitSend, cancelSend, none, unarmed]
      · obtain rfl := Option.some.inj armed
        refine (passed.mono (Nat.le_add_right ..)).concat fun delay computed => ?_
        simp only [SendLoopOutput.delay, size, if_neg unlimited, Option.map_some, Option.some.injEq] at computed
        simp only
        omega
      · simp [waitSend, cancelSend, none, unarmed] at left

theorem Looping.step (looping : Looping duration l log) (effect : SendEffect duration l e l' out)
    (sound : l.transmitter.queue.Sound) (rest : ActivatesAtRest duration l log e) :
    Looping duration l' (log ++ out) := by
  cases effect with
  | pass active ready sendTimer clock quiet =>
    refine ⟨⟨fun now => ?_, looping.paced.append_quiet quiet⟩, fun expiry armed => ?_, fun now some => ?_⟩
    · rw [pending, ready, sendTimer]
      exact looping.one (active ▸ now)
    · exact (looping.timed expiry (sendTimer ▸ armed)).append_quiet quiet
    · exact ((looping.due (active ▸ now) (ready ▸ some)).mono clock).append_quiet quiet
  | starts idle run =>
    have atRest := rest rfl idle
    exact Looping.send (l := startFdtRepeatTimer { l with transmitter := { l.transmitter with active := true } })
      sound looping.paced (fun _ => atRest) looping.timed run
  | halts =>
    rw [List.append_nil]
    exact ⟨⟨(by cases ·), looping.paced⟩, (by rintro _ ⟨⟩), (by cases ·)⟩
  | invoked some run =>
    refine Looping.send (l := { l with ready := l.ready - 1 }) sound looping.paced (fun active => ?_)
      looping.timed run
    have single := looping.one active
    refine ⟨?_, looping.due active some⟩
    simp only [pending] at single ⊢
    omega
  | @expired expiry armed past =>
    rw [List.append_nil]
    refine ⟨⟨fun active => ?_, looping.paced⟩, (by rintro _ ⟨⟩), fun _ _ => ?_⟩
    · have single := looping.one active
      simpa [pending, armed] using single
    · exact (looping.timed expiry armed).mono past

theorem looping_create (duration : Nat → Nat → Nat) (t : Transmitter) (rateLimit : Nat) :
    Looping duration (create duration t rateLimit) [] := by
  unfold create
  split
  · refine ⟨⟨fun _ => ?_, .nil⟩, fun _ _ => by simp [Passed], fun _ _ => by simp [Passed]⟩
    simp [pending, reschedule, waitSend, cancelSend, startFdtRepeatTimer, cancelFdt]
  · exact ⟨⟨fun _ => by simp [pending], .nil⟩, fun _ _ => by simp [Passed], fun _ _ => by simp [Passed]⟩

theorem reach_looping (reach : (sendLoop env duration).Reach (ActivatesAtRest duration) l log) :
    Looping duration l log := by
  induction reach with
  | start first =>
    obtain ⟨t, rateLimit, _, rfl⟩ := first
    exact looping_create ..
  | next before rest run ih =>
    exact ih.step (step_sendEffect (reach_sound before) run) (reach_sound before) rest

/-- When every `activate` finds the loop before it at rest, there is one loop, and
packets keep their distance. -/
theorem single_loop (reach : (sendLoop env duration).Reach (ActivatesAtRest duration) l log) :
    Single duration l log :=
  (reach_looping reach).toSingle

/-- With one loop, the delays of all packets from one to another lie between the two. -/
theorem keeps_rate (reach : (sendLoop env duration).Reach (ActivatesAtRest duration) l log) {i j : Nat}
    {first last : SendLoopOutput} (earlier : i < j) (here : log[i]? = some first) (there : log[j]? = some last)
    (sent : first.output.packetSize.isSome = true) (sent' : last.output.packetSize.isSome = true) :
    first.time + (((log.drop i).take (j - i)).filterMap (SendLoopOutput.delay duration)).sum ≤ last.time := by
  have paced := (reach_looping reach).paced
  obtain ⟨n, rfl⟩ : ∃ n, j = i + n + 1 := ⟨j - i - 1, by omega⟩
  have front : log.drop i = first :: log.drop (i + 1) := by
    obtain ⟨inside, rfl⟩ := List.getElem?_eq_some_iff.mp here
    exact List.drop_eq_getElem_cons inside
  have stretch : (log.drop i).take (n + 1 + 1) = first :: ((log.drop (i + 1)).take n ++ [last]) := by
    rw [front, List.take_succ_cons, List.take_add_one, List.getElem?_drop, show i + 1 + n = i + n + 1 by omega, there]
    rfl
  have whole : Paced duration (first :: ((log.drop (i + 1)).take n ++ [last])) :=
    paced.sublist (stretch ▸ (List.take_sublist ..).trans (List.drop_sublist ..))
  have total := whole.total sent sent'
  rwa [show i + n + 1 - i = n + 1 by omega, front, List.take_succ_cons]

theorem waitSend_pending (l : SendLoop) (delay : Nat) : (l.waitSend delay).pending = l.pending + 1 := by
  unfold pending waitSend cancelSend
  cases l.sendTimer <;> simp

theorem reschedule_pending (duration : Nat → Nat → Nat) (l : SendLoop) (bytes : Nat) :
    (l.reschedule duration bytes).pending = l.pending + 1 := by
  unfold reschedule
  split_ifs
  · exact waitSend_pending ..
  · simp only [pending]
    omega
  · exact waitSend_pending ..

/-- An invocation of an active transmitter brings about the next one. -/
theorem sendNextPacket_pending (sound : l.transmitter.queue.Sound) (active : l.transmitter.active = true)
    (run : sendNextPacket duration l = some (l', out)) :
    l'.transmitter.active = true ∧ l'.pending = l.pending + 1 := by
  rcases sendNextPacket_spec sound run with ⟨idle, _⟩ | ⟨_, rfl, _⟩ | ⟨_, t, output, bytes, active', _, rfl, _⟩
  · simp [active] at idle
  · exact ⟨active, waitSend_pending ..⟩
  · refine ⟨?_, reschedule_pending ..⟩
    rw [reschedule_transmitter]
    exact active'

/-- As long as the transmitter is active no invocation is lost and none is added. -/
theorem step_pending (sound : l.transmitter.queue.Sound) (active : l.transmitter.active = true)
    (other : e ≠ .deactivate) (run : l.step env duration e = some (l', out)) :
    l'.transmitter.active = true ∧ l'.pending = l.pending := by
  cases step_sendEffect sound run with
  | pass same ready sendTimer => exact ⟨same.trans active, by rw [pending, ready, sendTimer, pending]⟩
  | starts idle => simp [active] at idle
  | halts => exact absurd rfl other
  | invoked some run =>
    obtain ⟨active', next⟩ := sendNextPacket_pending (l := { l with ready := l.ready - 1 }) sound active run
    refine ⟨active', next.trans ?_⟩
    simp only [pending]
    omega
  | expired armed => exact ⟨active, by simp [pending, armed]⟩

theorem pending_pos {guard : SendLoop → List SendLoopOutput → SendLoopEvent → Prop}
    (reach : (sendLoop env duration).Reach guard l log) (active : l.transmitter.active = true) : 0 < l.pending := by
  induction reach with
  | start first =>
    obtain ⟨t, rateLimit, _, rfl⟩ := first
    rw [create_transmitter] at active
    rw [create, if_pos active, reschedule_pending]
    exact Nat.succ_pos _
  | @next s log e s' out before _ run ih =>
    have sound := reach_sound before
    cases was : s.transmitter.active with
    | true =>
      have sends : e ≠ .deactivate := by
        rintro rfl
        obtain ⟨rfl, _⟩ := Prod.mk.inj (Option.some.inj run)
        simp [deactivate, was, cancelSend, cancelFdt] at active
      rw [(step_pending sound was sends run).2]
      exact ih was
    | false =>
      cases step_sendEffect sound run with
      | pass same => simp [same, was] at active
      | starts _ run =>
        rw [(sendNextPacket_pending (l := startFdtRepeatTimer { s with
          transmitter := { s.transmitter with active := true } }) sound rfl run).2]
        exact Nat.succ_pos _
      | halts active' => simp [was] at active'
      | invoked _ run =>
        rcases sendNextPacket_spec (l := { s with ready := s.ready - 1 }) sound run with
          ⟨_, rfl, _⟩ | ⟨active', _⟩ | ⟨active', _⟩
        · simp [was] at active
        · simp [was] at active'
        · simp [was] at active'
      | expired => simp [was] at active

/-- The FDT is going to be repeated: the wait for it ends within the interval, or
its handler is about to run. -/
def Repeats (l : SendLoop) : Prop :=
  (∃ expiry, l.fdtTimer = some expiry ∧ expiry ≤ l.clock + Transmitter.fdtRepeatInterval * 1000000) ∨
    false ∈ l.fdtReady

/-- The handler of the FDT timer can make the FDT file. -/
def MakesFdt (env : Env) (l : SendLoop) (e : SendLoopEvent) : Prop :=
  ∀ index now, e = .runFdt index now → ∀ reason, (l.transmitter.sendFdt env now).ending ≠ .error reason

theorem startFdtRepeatTimer_repeats (l : SendLoop) : l.startFdtRepeatTimer.Repeats :=
  Or.inl ⟨_, rfl, le_rfl⟩

/-- `send_next_packet` leaves the FDT timer and the state of the transmitter alone. -/
theorem sendNextPacket_frame (run : sendNextPacket duration l = some (l', out)) :
    l'.transmitter.active = l.transmitter.active ∧ l'.fdtTimer = l.fdtTimer ∧ l'.fdtReady = l.fdtReady ∧
      l'.clock = l.clock := by
  have active : l.transmitter.sendNextPacket.state.active = l.transmitter.active :=
    congrArg Prod.snd (Transmitter.sendNextPacket_standing l.transmitter)
  have waits : ∀ (m : SendLoop) bytes, (reschedule duration m bytes).fdtTimer = m.fdtTimer ∧
      (reschedule duration m bytes).fdtReady = m.fdtReady ∧ (reschedule duration m bytes).clock = m.clock := by
    intro m bytes
    unfold reschedule
    split_ifs <;> exact ⟨rfl, rfl, rfl⟩
  unfold sendNextPacket calling at run
  dsimp only at run
  split at run
  · obtain ⟨rfl, rfl⟩ := Prod.mk.inj (Option.some.inj run)
    split_ifs
    · rw [reschedule_transmitter]
      exact ⟨active, waits ..⟩
    · exact ⟨active, rfl, rfl, rfl⟩
  · obtain ⟨rfl, rfl⟩ := Prod.mk.inj (Option.some.inj run)
    exact ⟨active, rfl, rfl, rfl⟩
  · cases run

theorem Repeats.frame (repeats : l.Repeats) (timer : l'.fdtTimer = l.fdtTimer)
    (ready : l'.fdtReady = l.fdtReady) (clock : l.clock ≤ l'.clock) : l'.Repeats := by
  rcases repeats with ⟨expiry, armed, soon⟩ | ended
  · exact Or.inl ⟨expiry, timer.trans armed, soon.trans (Nat.add_le_add_right clock _)⟩
  · exact Or.inr (ready ▸ ended)

theorem Repeats.step (repeats : l.transmitter.active = true → l.Repeats) (makes : MakesFdt env l e)
    (run : l.step env duration e = some (l', out)) (active : l'.transmitter.active = true) : l'.Repeats := by
  cases e with
  | outside event =>
    simp only [SendLoop.step] at run
    split at run
    · cases run
    · next untimed =>
      obtain ⟨⟨t, seen⟩, taken, made⟩ := Option.map_eq_some_iff.mp run
      obtain ⟨rfl, rfl⟩ := Prod.mk.inj made
      have same := (Transmitter.step_standing taken).2 (by rintro rfl; exact untimed rfl)
        (by rintro rfl; exact untimed rfl)
      exact (repeats (same.symm.trans active)).frame rfl rfl le_rfl
  | setRateLimit limit =>
    obtain ⟨rfl, rfl⟩ := Prod.mk.inj (Option.some.inj run)
    exact (repeats active).frame rfl rfl le_rfl
  | activate =>
    simp only [SendLoop.step, activate] at run
    split at run
    · obtain ⟨rfl, rfl⟩ := Prod.mk.inj (Option.some.inj run)
      exact repeats active
    · obtain ⟨_, timer, ready, clock⟩ := sendNextPacket_frame run
      exact (startFdtRepeatTimer_repeats _).frame timer ready clock.ge
  | deactivate =>
    obtain ⟨rfl, rfl⟩ := Prod.mk.inj (Option.some.inj run)
    unfold deactivate at active ⊢
    split at active
    · cases active
    · next idle => exact absurd active idle
  | runSend =>
    simp only [SendLoop.step] at run
    split at run
    · cases run
    · obtain ⟨same, timer, ready, clock⟩ := sendNextPacket_frame run
      exact (repeats (same.symm.trans active)).frame timer ready clock.ge
  | runFdt index now =>
    simp only [SendLoop.step] at run
    split at run
    · cases run
    · next aborted here =>
      unfold fdtSendTick at run
      split at run
      · next cancelled =>
        -- an aborted handler leaves those that were not aborted
        obtain ⟨rfl, rfl⟩ := Prod.mk.inj (Option.some.inj run)
        rcases repeats active with timer | ended
        · exact Or.inl timer
        · refine Or.inr ?_
          obtain ⟨at', found⟩ := List.mem_iff_getElem?.mp ended
          refine List.mem_eraseIdx_iff_getElem?.mpr ⟨at', ?_, found⟩
          rintro rfl
          simp [found, cancelled] at here
      · split at run
        · unfold calling at run
          split at run
          · obtain ⟨rfl, rfl⟩ := Prod.mk.inj (Option.some.inj run)
            exact startFdtRepeatTimer_repeats _
          · next what ending => exact absurd ending (makes index now rfl _)
          · cases run
        · next idle =>
          obtain ⟨rfl, rfl⟩ := Prod.mk.inj (Option.some.inj run)
          exact absurd active idle
  | sendTimerExpires =>
    simp only [SendLoop.step] at run
    split at run
    · obtain ⟨rfl, rfl⟩ := Prod.mk.inj (Option.some.inj run)
      exact (repeats active).frame rfl rfl le_rfl
    · cases run
  | fdtTimerExpires =>
    simp only [SendLoop.step] at run
    split at run
    · obtain ⟨rfl, rfl⟩ := Prod.mk.inj (Option.some.inj run)
      exact Or.inr (by simp)
    · cases run
  | wait passing =>
    obtain ⟨rfl, rfl⟩ := Prod.mk.inj (Option.some.inj run)
    exact (repeats active).frame rfl rfl (Nat.le_add_right ..)

/-- While the transmitter is active and its timer's handler can make the FDT file,
the FDT goes on being repeated. -/
theorem fdt_repeats (reach : (sendLoop env duration).Reach (fun l _ e => MakesFdt env l e) l log)
    (active : l.transmitter.active = true) : l.Repeats := by
  induction reach with
  | start first =>
    obtain ⟨t, rateLimit, _, rfl⟩ := first
    rw [create_transmitter] at active
    rw [create, if_pos active]
    exact (startFdtRepeatTimer_repeats _).frame rfl rfl le_rfl
  | next before makes run ih => exact Repeats.step ih makes run active

end SendLoop

/-- The microseconds for a number of bytes at a limit of kilobits a second. -/
def microseconds (bytes rateLimit : Nat) : Nat := (bytes * 8000 + (rateLimit - 1)) / rateLimit

/-- A loop that is limited to 1000 kbit/s. -/
def loopSession : SendLoop := .create microseconds (session 1500) 1000

/-- A file is sent, first its FDT and, when that is sent, its only packet. -/
def loopEvents : List SendLoopEvent :=
  (sendEvents [97]).map SendLoopEvent.outside ++ [.wait 10000, .sendTimerExpires, .runSend,
    .outside (.socketCompleted 0 true 0), .wait 20000, .sendTimerExpires, .runSend]

def SendLoopEvent.activates : SendLoopEvent → Bool
  | .activate => true
  | _ => false

theorem activatesAtRest_of_not {l : SendLoop} {log : List SendLoopOutput} {e : SendLoopEvent}
    (other : (!e.activates) = true) : SendLoop.ActivatesAtRest microseconds l log e := by
  rintro rfl
  cases other

def SendLoopOutput.isPacket (entry : SendLoopOutput) : Bool := entry.output.packetSize.isSome

/-- The fourth and the seventh output of the loop are packets. -/
theorem loop_sends : ∃ l log first last, (sendLoop (sampleEnv [] []) microseconds).Reach
      (SendLoop.ActivatesAtRest microseconds) l log ∧ l.transmitter.active = true ∧
    log[3]? = some first ∧ log[6]? = some last ∧
    first.output.packetSize.isSome = true ∧ last.output.packetSize.isSome = true := by
  obtain ⟨l, log, reach, checked⟩ := Machine.exists_reach (M := sendLoop (sampleEnv [] []) microseconds)
    (SendLoop.ActivatesAtRest microseconds) (fun _ e => !e.activates) loopSession loopEvents
    (fun r => r.1.transmitter.active && (r.2[3]?.any SendLoopOutput.isPacket && r.2[6]?.any SendLoopOutput.isPacket))
    (fun _ _ _ other => activatesAtRest_of_not other)
    ⟨_, _, ⟨_, _, _, _, _, _, _, _, by decide, rfl⟩, rfl⟩ (by rw [sampleEnv_eq]; decide +kernel)
  obtain ⟨active, packets⟩ := Bool.and_eq_true_iff.mp checked
  obtain ⟨here, there⟩ := Bool.and_eq_true_iff.mp packets
  obtain ⟨first, isFirst, sent⟩ := (Option.any_eq_true _ _).mp here
  obtain ⟨last, isLast, sent'⟩ := (Option.any_eq_true _ _).mp there
  exact ⟨l, log, first, last, reach, active, isFirst, isLast, sent, sent'⟩

theorem single_loop_file : ∃ l log first last, (sendLoop (sampleEnv [] []) microseconds).Reach
      (SendLoop.ActivatesAtRest microseconds) l log ∧ l.transmitter.active = true ∧
    log[3]? = some first ∧ log[6]? = some last ∧
    first.output.packetSize.isSome = true ∧ last.output.packetSize.isSome = true ∧
    SendLoop.Single microseconds l log := by
  obtain ⟨l, log, first, last, reach, active, here, there, sent, sent'⟩ := loop_sends
  exact ⟨l, log, first, last, reach, active, here, there, sent, sent', SendLoop.single_loop reach⟩

/-- The transmitter is activated again before the handler of the wait that
`deactivate` cancelled has run: two invocations are pending. -/
theorem not_single_loop : ¬ ∀ env duration l log,
    (sendLoop env duration).Reach Machine.always l log → SendLoop.Single duration l log := by
  intro claim
  obtain ⟨l, log, reach, checked⟩ := Machine.exists_reach (M := sendLoop (sampleEnv [] []) microseconds)
    Machine.always (fun _ _ => true) loopSession [.deactivate, .activate]
    (fun r => r.1.transmitter.active && decide (r.1.pending = 2))
    (fun _ _ _ _ => trivial) ⟨_, _, ⟨_, _, _, _, _, _, _, _, by decide, rfl⟩, rfl⟩ (by rw [sampleEnv_eq]; decide +kernel)
  obtain ⟨active, two⟩ := Bool.and_eq_true_iff.mp checked
  have one := (claim _ _ l log reach).one active
  rw [of_decide_eq_true two] at one
  omega

theorem keeps_rate_file : ∃ l log first last, (sendLoop (sampleEnv [] []) microseconds).Reach
      (SendLoop.ActivatesAtRest microseconds) l log ∧
    log[3]? = some first ∧ log[6]? = some last ∧
    first.time + (((log.drop 3).take (6 - 3)).filterMap (SendLoopOutput.delay microseconds)).sum ≤ last.time := by
  obtain ⟨l, log, first, last, reach, _, here, there, sent, sent'⟩ := loop_sends
  exact ⟨l, log, first, last, reach, here, there, SendLoop.keeps_rate reach (by decide) here there sent sent'⟩

/-- The FDT handler, if it is what runs, can make the file. -/
def makesFdt (l : SendLoop) : SendLoopEvent → Bool
  | .runFdt _ now => match (l.transmitter.sendFdt (sampleEnv [] []) now).ending with
    | .ok () => true
    | .error _ => false
  | _ => true

theorem makesFdt_meets {l : SendLoop} {e : SendLoopEvent} (makes : makesFdt l e = true) :
    SendLoop.MakesFdt (sampleEnv [] []) l e := by
  rintro index now rfl reason ending
  simp [makesFdt, ending] at makes

theorem fdt_repeats_once : ∃ l log, (sendLoop (sampleEnv [] []) microseconds).Reach
      (fun l _ e => SendLoop.MakesFdt (sampleEnv [] []) l e) l log ∧ l.clock = 5000000 ∧ l.Repeats := by
  obtain ⟨l, log, reach, checked⟩ := Machine.exists_reach (M := sendLoop (sampleEnv [] []) microseconds)
    (fun l _ e => SendLoop.MakesFdt (sampleEnv [] []) l e) makesFdt loopSession
    [.wait 5000000, .fdtTimerExpires, .runFdt 0 0] (fun r => r.1.transmitter.active && decide (r.1.clock = 5000000))
    (fun _ _ _ => makesFdt_meets) ⟨_, _, ⟨_, _, _, _, _, _, _, _, by decide, rfl⟩, rfl⟩ (by rw [sampleEnv_eq]; decide +kernel)
  obtain ⟨active, later⟩ := Bool.and_eq_true_iff.mp checked
  exact ⟨l, log, reach, of_decide_eq_true later, SendLoop.fdt_repeats reach active⟩

end Libflute

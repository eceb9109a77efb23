import Libflute.Sourcing
import Libflute.NoneComplete

/-! Whether what is delivered was received, and has the length and the digest that it says it has. -/

namespace Libflute

namespace File
variable {env : Env} {f : File} {sent : EncodingSymbol → Prop}

/-- The file has the bytes that were received, or what they decompress to if it has an encoding. -/
def HasContent (env : Env) (f : File) (received : List UInt8) : Prop :=
  if f.entry.contentEncoding = "" then f.buffer = received
  else env.inflate f.windowBits (received.take (toU32 f.fecOti.transferLength)) = some f.buffer

/-- A delivered file reports the size of its buffer, which has the content of bytes that
were received in symbols, and the digest that is stated. -/
structure Verified (env : Env) (sent : EncodingSymbol → Prop) (f : File) : Prop where
  length : f.length = f.buffer.length
  received : ∃ bytes, f.AssembledFrom sent bytes ∧ f.HasContent env bytes
  digest : f.entry.contentMd5 ≠ "" → base64Decode f.entry.contentMd5 = .ok (env.md5 f.buffer)

theorem Verified.mono {later : EncodingSymbol → Prop} (verified : f.Verified env sent) (imp : ∀ s, sent s → later s) :
    f.Verified env later := by
  obtain ⟨length, ⟨bytes, assembled, content⟩, digest⟩ := verified
  exact ⟨length, ⟨bytes, assembled.mono imp, content⟩, digest⟩

/-- The digest of a complete file without an encoding has been compared. -/
def Checked (env : Env) (f : File) : Prop :=
  f.complete = true → f.entry.contentMd5 ≠ "" → f.entry.contentEncoding = "" → md5Matches env f = .ok true

/-- The stated digest is one of 16 bytes, and what an encoded file decompresses to
has the stated length and digest. -/
def Genuine (env : Env) (f : File) : Prop :=
  if f.entry.contentEncoding = "" then
    ∀ digest, f.entry.contentMd5 ≠ "" → base64Decode f.entry.contentMd5 = .ok digest → digest.length = 16
  else ∀ content, env.inflate f.windowBits f.stream = some content → content.length ≤ zlibChunk →
    (f.entry.contentLength = 0 ∨ f.entry.contentLength = content.length) ∧
      ∀ digest, f.entry.contentMd5 ≠ "" → base64Decode f.entry.contentMd5 = .ok digest → digest = env.md5 content

theorem checkDigest_checked {g : File} (run : f.checkDigest env = (g, .ok ())) : g.Checked env := by
  intro complete stated plain
  unfold checkDigest at run
  split at run
  · split at run
    · cases run
    · next same =>
      obtain ⟨rfl, _⟩ := Prod.mk.inj run
      exact same
    · obtain ⟨rfl, _⟩ := Prod.mk.inj run
      cases complete
  · next unchecked =>
    obtain ⟨rfl, _⟩ := Prod.mk.inj run
    exact absurd ⟨complete, stated, plain⟩ unchecked

theorem putSymbol_checked {g : File} {symbol : EncodingSymbol} (checked : f.Checked env)
    (run : f.putSymbol env symbol = (g, .ok ())) : g.Checked env := by
  unfold putSymbol at run
  split at run
  · cases run
  dsimp only at run
  split at run
  · cases run
  split at run
  · obtain ⟨rfl, _⟩ := Prod.mk.inj run
    exact checked
  split at run
  · cases run
  · exact checkDigest_checked run

theorem putSymbols_checked {g : File} {symbols : List EncodingSymbol} (checked : f.Checked env)
    (run : f.putSymbols env symbols = (g, .ok ())) : g.Checked env := by
  induction symbols generalizing f with
  | nil =>
    obtain ⟨rfl, _⟩ := Prod.mk.inj run
    exact checked
  | cons symbol rest ih =>
    rw [putSymbols] at run
    split at run
    · next h one => exact ih (putSymbol_checked checked one) run
    · cases run

/-- A digest that is found right is the one that is stated if that has 16 bytes. -/
theorem md5Matches_digest (whole : f.length = f.buffer.length) (found : md5Matches env f = .ok true)
    {digest : List UInt8} (decoded : base64Decode f.entry.contentMd5 = .ok digest) (size : digest.length = 16) :
    digest = env.md5 f.buffer := by
  have content : readBytes f.buffer f.length = .ok f.buffer :=
    readBytes_eq_ok.mpr ⟨whole.le, by rw [whole, List.take_length]⟩
  have stated : readBytes (digest ++ [0]) 16 = .ok digest :=
    readBytes_eq_ok.mpr ⟨by simp [size], by rw [← size, List.take_left]⟩
  rw [md5Matches, content, ok_bind, decoded, ok_bind, stated, ok_bind] at found
  exact (beq_iff_eq.mp (Except.ok.inj found)).symm

/-- A genuine encoded file is delivered as what it decompresses to. -/
theorem decode_genuine {g : File} (receiving : f.Receiving) (genuine : f.Genuine env)
    (encoded : f.entry.contentEncoding ≠ "") (run : f.decode env = (g, .ok ())) :
    ∃ content, env.inflate f.windowBits f.stream = some content ∧ g = f.unpacked content ∧ g.length = content.length ∧
      (f.entry.contentMd5 ≠ "" → base64Decode f.entry.contentMd5 = .ok (env.md5 content)) := by
  rw [Genuine, if_neg encoded] at genuine
  obtain ⟨content, inflated, short, _⟩ := decode_eq_ok receiving.undecoded encoded run
  obtain ⟨length, digest⟩ := genuine content inflated short
  have known : f.entry.contentEncoding = "gzip" ∨ f.entry.contentEncoding = "deflate" := by
    by_contra unknown
    rw [decode, if_neg (by simp [receiving.undecoded, encoded]), if_neg unknown] at run
    cases run
  have whole : (f.unpacked content).length = content.length := by
    have small : toU32 content.length = content.length := Nat.mod_eq_of_lt (short.trans_lt (by decide))
    change (if f.entry.contentLength = 0 then toU32 content.length else f.entry.contentLength) = content.length
    rcases length with none | same
    · rw [if_pos none, small]
    · split
      · exact small
      · exact same
  rw [decode_unpacked receiving.undecoded known inflated short] at run
  refine ⟨content, inflated, ?_⟩
  split at run
  · next stated =>
    -- the digest is right, so the file is not reset
    have right : ∀ matches', md5Matches env (f.unpacked content) = .ok matches' →
        base64Decode f.entry.contentMd5 = .ok (env.md5 content) ∧ matches' = true := by
      intro matches' found
      obtain ⟨_, read, rest⟩ := bind_eq_ok.mp found
      obtain ⟨d, decoded, rest⟩ := bind_eq_ok.mp rest
      obtain ⟨s, stored, same⟩ := bind_eq_ok.mp rest
      obtain rfl := digest d stated decoded
      obtain ⟨_, rfl⟩ := readBytes_eq_ok.mp read
      obtain ⟨_, rfl⟩ := readBytes_eq_ok.mp stored
      refine ⟨decoded, (Except.ok.inj same).symm.trans ?_⟩
      rw [whole, ← env.md5_length content, List.take_left]
      change (env.md5 (content.take content.length) == env.md5 content) = true
      rw [List.take_length, beq_self_eq_true]
    split at run
    · cases run
    · next found =>
      obtain ⟨rfl, _⟩ := Prod.mk.inj run
      exact ⟨rfl, whole, fun _ => (right true found).1⟩
    · next found => cases (right false found).2
  · next unstated =>
    obtain ⟨rfl, _⟩ := Prod.mk.inj run
    exact ⟨rfl, whole, fun stated => absurd stated unstated⟩

theorem decode_plain (plain : f.entry.contentEncoding = "") : f.decode env = (f, .ok ()) := by
  rw [decode, if_pos (Or.inr plain)]

/-- A complete file that is genuine is delivered as what was received and verified. -/
theorem decode_verified {g : File} (receiving : f.Receiving) (complete : f.complete = true)
    (assembled : f.AssembledFrom sent f.buffer) (checked : f.Checked env) (genuine : f.Genuine env)
    (run : f.decode env = (g, .ok ())) : g.Verified env sent := by
  by_cases plain : f.entry.contentEncoding = ""
  · rw [decode_plain plain] at run
    obtain ⟨rfl, _⟩ := Prod.mk.inj run
    rw [Genuine, if_pos plain] at genuine
    have whole : f.length = f.buffer.length := by
      rw [length, if_neg (by simp [receiving.undecoded]), receiving.room]
    refine ⟨whole, ⟨f.buffer, assembled, by rw [HasContent, if_pos plain]⟩, fun stated => ?_⟩
    have found := checked complete stated plain
    obtain ⟨_, _, rest⟩ := bind_eq_ok.mp found
    obtain ⟨d, decoded, _⟩ := bind_eq_ok.mp rest
    rw [decoded, md5Matches_digest whole found decoded (genuine d stated decoded)]
  · obtain ⟨content, inflated, rfl, whole, digest⟩ := decode_genuine receiving genuine plain run
    have same : (f.unpacked content).entry.contentEncoding ≠ "" := plain
    refine ⟨whole, ⟨f.buffer, ⟨assembled.length, assembled.covered, assembled.slots⟩, ?_⟩, digest⟩
    rw [HasContent, if_neg same]
    exact inflated

/-- Decoding a genuine file leaves it complete, also where it fails. -/
theorem decode_keeps_complete (receiving : f.Receiving) (genuine : f.Genuine env) :
    (f.decode env).1.complete = f.complete := by
  by_cases plain : f.entry.contentEncoding = ""
  · rw [decode_plain plain]
  · cases run : f.decode env with
    | mk g ending =>
      cases ending with
      | error e =>
        have kept := File.decode_complete (by rw [run] : (f.decode env).2 = .error e)
        rwa [run] at kept
      | ok _ =>
        obtain ⟨_, _, rfl, _⟩ := decode_genuine receiving genuine plain run
        rfl

end File

namespace Receiver
variable {env : Env} {r : Receiver}

/-- A symbol that was put into the file of a TOI. -/
def PutInto (log : List ReceiverOutput) (toi : Nat) (symbol : EncodingSymbol) : Prop :=
  ∃ instanceId symbols, .put toi instanceId symbols ∈ log ∧ symbol ∈ symbols

/-- The slots of a file that is to be delivered cover it, the symbols that are put into it
fit them, and it is genuine if it is complete then. -/
def VerifiableNext (env : Env) (r : Receiver) : ReceiverEvent → Prop
  | .datagram datagram => ∀ alc before after symbols stored, Puts env r datagram alc before after symbols stored →
      alc.toi ≠ 0 → before.fecOti.Tileable ∧ before.FitsAll env symbols ∧ (after.complete = true → after.Genuine env)
  | _ => True

/-- A file that may be delivered is one that is being received, from the symbols of the log. -/
def MayDeliver (env : Env) (log : List ReceiverOutput) (toi : Nat) (f : File) : Prop :=
  toi ≠ 0 → f.complete = false → f.Receiving ∧ f.Sourced env (PutInto log toi)

theorem mayDeliver_made (log : List ReceiverOutput) (toi : Nat) (entry : FileEntry) (f : File)
    (made : File.ofEntry env entry = .ok f) : MayDeliver env log toi f :=
  fun _ _ => ⟨File.ofEntry_receiving made, File.ofEntry_sourced made⟩

theorem MayDeliver.append {log : List ReceiverOutput} {toi : Nat} {f : File} (may : MayDeliver env log toi f)
    (more : List ReceiverOutput) : MayDeliver env (log ++ more) toi f := by
  intro other incomplete
  obtain ⟨receiving, sourced⟩ := may other incomplete
  refine ⟨receiving, sourced.mono ?_⟩
  rintro symbol ⟨instanceId, symbols, put, member⟩
  exact ⟨instanceId, symbols, List.mem_append_left _ put, member⟩

/-- A file that got symbols that fit is still made of symbols of the log, this packet's among them. -/
theorem MayDeliver.put {log : List ReceiverOutput} {datagram : List UInt8} {alc : AlcPacket} {before after : File}
    {symbols : List EncodingSymbol} {stored : Outcome Unit} (may : MayDeliver env log alc.toi before)
    (puts : Puts env r datagram alc before after symbols stored) (other : alc.toi ≠ 0)
    (tile : before.fecOti.Tileable) (fits : before.FitsAll env symbols)
    (seen : .put alc.toi alc.fdtInstanceId symbols ∈ log) : after.Receiving ∧ after.Sourced env (PutInto log alc.toi) := by
  obtain ⟨receiving, sourced⟩ := may other puts.stores.incomplete
  have kept := receiving.putSymbols env symbols
  have later := sourced.putSymbols tile fits fun s member => ⟨_, _, seen, member⟩
  rw [puts.stores.put] at kept later
  exact ⟨kept, later⟩

/-- What a step adds to the log has what its packet puts. -/
theorem Puts.mem_step {r' : Receiver} {out : List ReceiverOutput} {datagram : List UInt8} {alc : AlcPacket}
    {before after : File} {symbols : List EncodingSymbol} {stored : Outcome Unit}
    (puts : Puts env r datagram alc before after symbols stored)
    (step : (receiver env).step r (.datagram datagram) = some (r', out)) :
    .put alc.toi alc.fdtInstanceId symbols ∈ out := by
  obtain ⟨_, _, ⟨_, rfl⟩ | ⟨_, _, rfl⟩⟩ := receiver_step_datagram step
  · exact puts.seen
  · exact List.mem_append_left _ puts.seen

theorem mayDeliver_step {log out : List ReceiverOutput} {event : ReceiverEvent} {r' : Receiver}
    (all : r.AllFiles (MayDeliver env log)) (next : r.VerifiableNext env event)
    (step : (receiver env).step r event = some (r', out)) : r'.AllFiles (MayDeliver env (log ++ out)) := by
  have still : r.AllFiles (MayDeliver env (log ++ out)) := fun toi f held => (all toi f held).append out
  refine still.step (mayDeliver_made _) step ?_
  rintro datagram rfl alc before after symbols stored puts may
  have seen := List.mem_append_right log (puts.mem_step step)
  constructor
  · intro other incomplete
    obtain ⟨tile, fits, _⟩ := next alc before after symbols stored puts other
    exact may.put puts other tile fits seen
  · -- a genuine file that is decoded and not delivered stays complete
    intro _ complete other incomplete
    obtain ⟨tile, fits, genuine⟩ := next alc before after symbols stored puts other
    obtain ⟨receiving, _⟩ := may.put puts other tile fits seen
    rw [File.decode_keeps_complete receiving (genuine complete), complete] at incomplete
    cases incomplete

theorem mayDeliver_reach {log : List ReceiverOutput}
    (reach : (receiver env).Reach (fun r _ e => r.VerifiableNext env e) r log) : r.AllFiles (MayDeliver env log) := by
  refine Machine.Reach.invariant (I := fun r log => r.AllFiles (MayDeliver env log)) ?_ ?_ reach
  · rintro r ⟨nothing, _⟩ toi f held
    rw [nothing] at held
    cases held
  · exact fun r log e r' out all next step => mayDeliver_step all next step

/-- In every run in which symbols fit their files and completed files are genuine, every
file that is delivered was received in symbols of its TOI, and has the length and the
digest it says it has. -/
theorem delivered_verified (env : Env) (r : Receiver) (log : List ReceiverOutput) :
    (receiver env).Reach (fun r _ e => r.VerifiableNext env e) r log →
      ∀ toi f, .delivered toi f ∈ log → f.Verified env (PutInto log toi) := by
  intro reach
  induction reach with
  | start => exact fun _ _ none => by cases none
  | @next r log e r' out before next step ih =>
    intro toi f delivered
    rcases List.mem_append.mp delivered with earlier | now
    · refine (ih toi f earlier).mono ?_
      rintro symbol ⟨instanceId, symbols, put, member⟩
      exact ⟨instanceId, symbols, List.mem_append_left _ put, member⟩
    · obtain ⟨datagram, alc, held, after, symbols, rfl, puts, complete, rfl, other, decode⟩ := step_delivered step now
      obtain ⟨tile, fits, genuine⟩ := next alc held after symbols _ puts other
      have may := ((mayDeliver_reach before).of_puts (mayDeliver_made _) puts).append out
      obtain ⟨receiving, sourced⟩ := may.put puts other tile fits (List.mem_append_right log (puts.mem_step step))
      have checked : held.Checked env := by
        intro complete
        rw [puts.stores.incomplete] at complete
        cases complete
      refine File.decode_verified receiving complete (sourced.assembledFrom ?_ complete)
        (File.putSymbols_checked checked puts.stores.put) (genuine complete) decode
      rw [File.fecOti, puts.stores.entry]
      exact tile

end Receiver

/-- `Genuine` as it is evaluated in a run. -/
def File.genuine (env : Env) (f : File) : Bool :=
  if f.entry.contentEncoding = "" then
    f.entry.contentMd5 = "" || ((base64Decode f.entry.contentMd5).toOption.all fun digest => digest.length == 16)
  else (env.inflate f.windowBits f.stream).all fun content => zlibChunk < content.length ||
    ((f.entry.contentLength = 0 || f.entry.contentLength = content.length) &&
      (f.entry.contentMd5 = "" || (base64Decode f.entry.contentMd5).toOption.all fun digest => digest = env.md5 content))

theorem File.genuine_of_eval {env : Env} {f : File} (genuine : f.genuine env = true) : f.Genuine env := by
  have stated : ∀ {test : List UInt8 → Bool}, (f.entry.contentMd5 = "" ∨
      (base64Decode f.entry.contentMd5).toOption.all test = true) → ∀ digest, f.entry.contentMd5 ≠ "" →
        base64Decode f.entry.contentMd5 = .ok digest → test digest = true := by
    rintro test (none | all) digest some decoded
    · exact absurd none some
    · rw [decoded] at all
      exact all
  unfold File.genuine at genuine
  unfold Genuine
  split at genuine
  · next plain =>
    rw [if_pos plain]
    intro digest some decoded
    exact beq_iff_eq.mp (stated (by simpa using genuine) digest some decoded)
  · next encoded =>
    rw [if_neg encoded]
    intro content inflated short
    rw [inflated] at genuine
    simp only [Option.all_some, Bool.or_eq_true, decide_eq_true_eq, Bool.and_eq_true, not_lt.mpr short, false_or] at genuine
    refine ⟨genuine.1, fun digest some decoded => ?_⟩
    exact of_decide_eq_true (stated genuine.2 digest some decoded)

namespace Receiver

/-- `VerifiableNext` as it is evaluated in a run. -/
def verifiableNext (env : Env) (r : Receiver) : ReceiverEvent → Bool
  | .datagram datagram => r.putsMeet env datagram fun alc before symbols => alc.toi = 0 ||
      (decide before.fecOti.Tileable && before.fitsAll env symbols &&
        (!(before.putSymbols env symbols).1.complete || (before.putSymbols env symbols).1.genuine env))
  | _ => true

theorem verifiableNext_of_eval {env : Env} {r : Receiver} {e : ReceiverEvent} (verifiable : r.verifiableNext env e = true) :
    r.VerifiableNext env e := by
  cases e with
  | datagram datagram =>
    intro alc before after symbols stored puts other
    have meets := meets_of_puts verifiable puts
    simp only [other, decide_false, Bool.false_or, puts.stores.put, Bool.and_eq_true, decide_eq_true_eq] at meets
    obtain ⟨⟨tile, fits⟩, genuine⟩ := meets
    refine ⟨tile, File.fitsAll_iff.mp fits, fun complete => File.genuine_of_eval ?_⟩
    rwa [complete, Bool.not_true, Bool.false_or] at genuine
  | _ => trivial

/-- The bytes `abc` as a zlib stream. -/
def deflatedAbc : List UInt8 := [0x78, 0x9c, 0x4b, 0x4c, 0x4a, 6, 0, 2, 0x4d, 1, 0x27]

/-- A table with the bytes `abc` plain and compressed, under a digest. -/
def abcTable (contentMd5 : String) : SampleTable where
  files := [listedFile "1" "f" "3" [("Content-MD5", contentMd5)],
    listedFile "2" "g" "0" [("Transfer-Length", "11"), ("Content-Encoding", "deflate"), ("Content-MD5", contentMd5)]]

def abcEnv (contentMd5 : String) : Env := tablesEnv [abcTable contentMd5] [(15, deflatedAbc, [97, 98, 99])]

/-- The compressed file comes in two packets, the last first. -/
def abcRun (contentMd5 : String) : List ReceiverEvent := [
  .registerCompletionCallback true,
  .datagram (fdtPacket 1 (abcTable contentMd5)),
  .datagram (blockPacket 2 1 (deflatedAbc.drop 8)),
  .datagram (blockPacket 1 0 [97, 98, 99]),
  .datagram (blockPacket 2 0 (deflatedAbc.take 8))]

theorem delivered_verified_abc : ∃ r log f g,
    (receiver (abcEnv "kAFQmDzST7DWlj99KOF/cg==")).Reach
      (fun r _ e => r.VerifiableNext (abcEnv "kAFQmDzST7DWlj99KOF/cg==") e) r log ∧
    (.delivered 1 f ∈ log ∧ f.Verified (abcEnv "kAFQmDzST7DWlj99KOF/cg==") (PutInto log 1)) ∧
    .delivered 2 g ∈ log ∧ g.Verified (abcEnv "kAFQmDzST7DWlj99KOF/cg==") (PutInto log 2) := by
  obtain ⟨r, log, reach, checked⟩ := Machine.exists_reach (M := receiver (abcEnv "kAFQmDzST7DWlj99KOF/cg=="))
    (fun r _ e => r.VerifiableNext (abcEnv "kAFQmDzST7DWlj99KOF/cg==") e)
    (verifiableNext (abcEnv "kAFQmDzST7DWlj99KOF/cg==")) idleReceiver (abcRun "kAFQmDzST7DWlj99KOF/cg==")
    (fun result => result.2.any (ReceiverOutput.delivers 1) && result.2.any (ReceiverOutput.delivers 2))
    (fun _ _ _ meets => verifiableNext_of_eval meets) ⟨rfl, rfl, rfl, rfl, rfl⟩ (by decide +kernel)
  rw [Bool.and_eq_true] at checked
  obtain ⟨_, f, plain, one⟩ := ReceiverOutput.delivered_of_any (fun toi _ => decide (toi = 1)) checked.1
  obtain ⟨_, g, encoded, two⟩ := ReceiverOutput.delivered_of_any (fun toi _ => decide (toi = 2)) checked.2
  obtain rfl := of_decide_eq_true one
  obtain rfl := of_decide_eq_true two
  exact ⟨r, log, f, g, reach, ⟨plain, delivered_verified _ r log reach 1 f plain⟩,
    encoded, delivered_verified _ r log reach 2 g encoded⟩

/-- A file with a digest that is not that of its bytes. -/
def misstated (f : File) : Bool := f.entry.contentMd5 ≠ "" && (base64Decode f.entry.contentMd5).toOption ≠
  some ((abcEnv "AAAAAAAAAAAAAAAAAAAAAA==").md5 f.buffer)

/-- A compressed file whose digest is wrong is delivered all the same. -/
theorem not_delivered_verified : ¬ ∀ (env : Env) (r : Receiver) (log : List ReceiverOutput),
    (receiver env).Reach Machine.always r log →
      ∀ toi f, .delivered toi f ∈ log → f.Verified env (PutInto log toi) := by
  intro claim
  obtain ⟨r, log, reach, checked⟩ := Machine.exists_reach (M := receiver (abcEnv "AAAAAAAAAAAAAAAAAAAAAA=="))
    Machine.always (fun _ _ => true) idleReceiver (abcRun "AAAAAAAAAAAAAAAAAAAAAA==")
    (fun result => result.2.any fun output => output.delivery?.any fun d => misstated d.2)
    (fun _ _ _ _ => trivial) ⟨rfl, rfl, rfl, rfl, rfl⟩ (by decide +kernel)
  obtain ⟨toi, f, seen, wrong⟩ := ReceiverOutput.delivered_of_any (fun _ f => misstated f) checked
  simp only [misstated, ne_eq, Bool.and_eq_true, decide_not, Bool.not_eq_true', decide_eq_false_iff_not] at wrong
  have verified := (claim _ r log reach toi f seen).digest wrong.1
  exact wrong.2 (by rw [verified]; rfl)

end Receiver
end Libflute

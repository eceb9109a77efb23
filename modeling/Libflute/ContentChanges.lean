import Libflute.Description
import Libflute.SampleEnv

/-! Whether a description describes the content it holds, over any calls of its
setters and of `send` while the application writes into its buffers. -/

namespace Libflute

/-- A description with what it was last computed from and what its TOI was taken for. -/
structure Holding where
  memory : Memory
  description : Description
  described : List UInt8
  assignedFor : List UInt8

/-- What the application does. -/
inductive ContentEvent
  | write (memory : Memory)
  | setContent (data : Option Nat) (dataLength : Nat)
  | setContentFile (filename : String) (attached : Attached)
  | setCompression (compression : CompressionAlgorithm)
  | send (tsi : Nat) (nextToi : UInt16) (fecOti : FecOti)

/-- What is seen after a call of `set_content` with a buffer. -/
structure ContentReport where
  dataLength : Nat
  bytes : List UInt8
  contentLength : Nat
  contentMd5 : String
  toi : Nat
  assignedFor : List UInt8
  deriving DecidableEq, Repr

/-- The Content-MD5 of some bytes, of which there may be none. -/
def digestOf (env : Env) (bytes : List UInt8) : String := if bytes = [] then "" else base64Encode (env.md5 bytes)

/-- The description is that of the bytes, and its TOI was not taken for other bytes. -/
structure ContentReport.Right (env : Env) (r : ContentReport) : Prop where
  length : r.contentLength = r.dataLength
  md5 : r.contentMd5 = digestOf env r.bytes
  toi : r.bytes ≠ r.assignedFor → r.toi = 0

namespace Holding

def content (h : Holding) : List UInt8 := h.description.content h.memory

/-- Whether `send` takes a new TOI. -/
def takesToi (h : Holding) (tsi : Nat) : Bool := h.description.tsi.any (· ≠ tsi) || h.description.fileEntry.toi == 0

def step (env : Env) (h : Holding) : ContentEvent → Holding × List ContentReport
  | .write memory => ({ h with memory := memory }, [])
  | .setContent data dataLength =>
    let d := h.description.setContent env h.memory data dataLength
    let changed := data ≠ h.description.data ∨ h.description.dataLength ≠ if data.isSome then dataLength else 0
    ({ h with
      description := d
      described := if changed then d.content h.memory else h.described },
      [{ dataLength := dataLength
         bytes := d.content h.memory
         contentLength := d.fileEntry.contentLength
         contentMd5 := d.fileEntry.contentMd5
         toi := d.fileEntry.toi
         assignedFor := h.assignedFor }])
  | .setContentFile filename attached =>
    let (d, memory, ending) := h.description.setContentFile env h.memory filename attached
    ({ h with
      memory := memory
      description := d
      described := if filename ≠ h.description.filename ∧ ending = .ok () then d.content memory else h.described }, [])
  | .setCompression compression =>
    let d := h.description.setCompression env h.memory compression
    ({ h with
      description := d
      described := if compression ≠ h.description.compressionType then d.content h.memory else h.described }, [])
  | .send tsi nextToi fecOti =>
    ({ h with
      description := h.description.send tsi nextToi fecOti
      assignedFor := if h.takesToi tsi then h.content else h.assignedFor }, [])

/-- A description as a constructor leaves it. -/
def Constructed (env : Env) (h : Holding) : Prop :=
  h.described = h.content ∧
    ((∃ contentLocation data length, h.description = .ofData env h.memory contentLocation data length) ∨
      ∃ memory contentLocation filename attached,
        Description.ofFile env memory contentLocation filename attached = .ok (h.description, h.memory))

/-- The bytes held are those the description was computed from. -/
def Current (h : Holding) : Prop := h.content = h.described

/-- No call reads other bytes of the same length with the same MD5 digest, content
is not written in place before a call that leaves the description as it is or
takes a TOI, and there are no files that fail to open. -/
def Careful (env : Env) (h : Holding) : ContentEvent → Prop
  | .write _ => True
  | .setContent data dataLength =>
    dataLength < 2 ^ 32 ∧ (data = none → dataLength = 0) ∧
      (data = h.description.data → dataLength = h.description.dataLength → h.Current) ∧
      ((h.memory.bytesAt data dataLength).length = h.described.length →
        env.md5 (h.memory.bytesAt data dataLength) = env.md5 h.described →
        h.memory.bytesAt data dataLength = h.described)
  | .setContentFile _ attached => ¬ attached.Fails
  | .setCompression _ => True
  | .send tsi _ _ => h.takesToi tsi = true → h.Current

/-- The description is that of the bytes it was computed from, for which its TOI was taken. -/
structure Consistent (env : Env) (h : Holding) : Prop where
  length : h.description.dataLength = h.described.length
  null : h.description.data = none → h.description.dataLength = 0
  contentLength : h.description.fileEntry.contentLength = toU32 h.description.dataLength
  md5 : h.description.fileEntry.contentMd5 = digestOf env h.described
  toi : h.description.fileEntry.toi ≠ 0 → h.assignedFor = h.described

section calculated
variable {env : Env} {memory : Memory} {d : Description}

theorem content_calculateFileEntry : (d.calculateFileEntry env memory).content memory = d.content memory := rfl

theorem length_content (null : d.data = none → d.dataLength = 0) : (d.content memory).length = d.dataLength := by
  unfold Description.content Memory.bytesAt
  cases data : d.data with
  | none => exact (null data).symm
  | some address => exact Memory.length_read memory address d.dataLength

theorem md5_calculateFileEntry : (d.calculateFileEntry env memory).fileEntry.contentMd5 = digestOf env (d.content memory) := by
  cases held : d.data with
  | none => simp [Description.calculateFileEntry, Description.content, Memory.bytesAt, digestOf, held]
  | some address =>
    have empty : memory.read address d.dataLength = [] ↔ d.dataLength = 0 := by
      rw [← List.length_eq_zero_iff, Memory.length_read]
    simp only [Description.calculateFileEntry, Description.content, Memory.bytesAt, digestOf, held, empty]

/-- What is computed from the bytes held is consistent with them. -/
theorem Consistent.calculated {assignedFor : List UInt8} (null : d.data = none → d.dataLength = 0)
    (toi : d.fileEntry.toi ≠ 0 → assignedFor = d.content memory) : Consistent env {
      memory := memory
      description := d.calculateFileEntry env memory
      described := d.content memory
      assignedFor := assignedFor } where
  length := (length_content null).symm
  null := null
  contentLength := rfl
  md5 := md5_calculateFileEntry
  toi := toi

end calculated

variable {env : Env} {h : Holding}

theorem Constructed.consistent (constructed : Constructed env h) : Consistent env h := by
  obtain ⟨memory, description, described, assignedFor⟩ := h
  obtain ⟨same, ⟨contentLocation, data, length, made⟩ | ⟨before, contentLocation, filename, attached, made⟩⟩ := constructed
  all_goals
    obtain rfl : described = description.content memory := same
  · obtain rfl : description = Description.ofData env memory contentLocation data length := made
    refine Consistent.calculated (fun null => ?_) fun nonzero => absurd rfl nonzero
    change data = none at null
    simp [null]
  · cases attached with
    | mapped fileHandle address bytes =>
      obtain ⟨rfl, rfl⟩ := Prod.mk.inj (Except.ok.inj made)
      exact Consistent.calculated (fun null => absurd null (Option.some_ne_none _)) fun nonzero => absurd rfl nonzero
    | notOpened => cases made
    | notMeasured fileHandle => cases made

/-- The TOI is kept for a buffer only if its bytes are those described. -/
theorem Consistent.toiForData (consistent : Consistent env h) {data : Option Nat} {dataLength : Nat}
    (null : data = none → dataLength = 0)
    (distinct : (h.memory.bytesAt data dataLength).length = h.described.length →
      env.md5 (h.memory.bytesAt data dataLength) = env.md5 h.described →
      h.memory.bytesAt data dataLength = h.described)
    (kept : h.description.toiForData env h.memory data dataLength ≠ 0) :
    h.description.fileEntry.toi ≠ 0 ∧ h.memory.bytesAt data dataLength = h.described := by
  unfold Description.toiForData at kept
  split at kept
  · exact absurd rfl kept
  · next same =>
    have length : dataLength = h.described.length := by
      rw [← consistent.length]
      omega
    have nothing : dataLength = 0 → h.described = [] := fun zero => List.length_eq_zero_iff.mp (by omega)
    cases data with
    | none =>
      cases now : h.description.data with
      | some old =>
        simp only [now] at kept
        exact absurd rfl kept
      | none =>
        simp only [now] at kept
        exact ⟨kept, (nothing (null rfl)).symm⟩
    | some address =>
      have empty : dataLength = 0 → h.memory.bytesAt (some address) dataLength = h.described := by
        intro zero
        rw [nothing zero, zero]
        rfl
      cases now : h.description.data with
      | none =>
        simp only [now] at kept
        split at kept
        · exact absurd rfl kept
        · next zero => exact ⟨kept, empty (by omega)⟩
      | some old =>
        simp only [now] at kept
        split at kept
        · exact absurd rfl kept
        · next equal =>
          refine ⟨kept, ?_⟩
          by_cases zero : dataLength = 0
          · exact empty zero
          · have digest : h.description.fileEntry.contentMd5 = base64Encode (env.md5 (h.memory.read address dataLength)) := by
              by_contra different
              exact equal ⟨zero, different⟩
            have some : h.described ≠ [] := by
              rw [← List.length_pos_iff_ne_nil]
              omega
            rw [consistent.md5, digestOf, if_neg some] at digest
            exact distinct ((Memory.length_read _ _ _).trans length) (base64Encode_injective digest).symm

/-- What a careful call of `set_content` with a buffer leaves, and what is seen of it. -/
theorem Consistent.setContent (consistent : Consistent env h) {data : Option Nat} {dataLength : Nat}
    (careful : h.Careful env (.setContent data dataLength)) :
    Consistent env (h.step env (.setContent data dataLength)).1 ∧
      ∀ r ∈ (h.step env (.setContent data dataLength)).2, r.Right env := by
  obtain ⟨small, null, current, distinct⟩ := careful
  have length : (if data.isSome then dataLength else 0) = dataLength := by
    cases data with
    | none => simp [null rfl]
    | some => rfl
  simp only [step, length, List.mem_singleton, forall_eq]
  by_cases changed : data ≠ h.description.data ∨ h.description.dataLength ≠ dataLength
  · rw [if_pos changed]
    have isNew : h.description.setContent env h.memory data dataLength = Description.calculateFileEntry env h.memory
        { ({ h.description with fileEntry := { h.description.fileEntry with
            toi := h.description.toiForData env h.memory data dataLength } }).freeFileData with
          data := data
          dataLength := dataLength } := by
      simp only [Description.setContent, length, if_pos changed]
    set made : Description := { ({ h.description with fileEntry := { h.description.fileEntry with
        toi := h.description.toiForData env h.memory data dataLength } }).freeFileData with
      data := data
      dataLength := dataLength } with isMade
    have toi : made.fileEntry.toi = h.description.toiForData env h.memory data dataLength := by
      rw [isMade]
      unfold Description.freeFileData
      split <;> rfl
    have bytes : made.content h.memory = h.memory.bytesAt data dataLength := rfl
    have assigned : made.fileEntry.toi ≠ 0 → h.assignedFor = made.content h.memory := by
      intro nonzero
      rw [toi] at nonzero
      obtain ⟨before, same⟩ := consistent.toiForData null distinct nonzero
      rw [bytes, same]
      exact consistent.toi before
    rw [isNew, content_calculateFileEntry]
    refine ⟨Consistent.calculated null assigned, ?_, md5_calculateFileEntry, ?_⟩
    · exact Nat.mod_eq_of_lt small
    · intro other
      by_contra nonzero
      exact other (assigned nonzero).symm
  · rw [if_neg changed]
    have isOld : h.description.setContent env h.memory data dataLength = h.description := by
      simp only [Description.setContent, length, if_neg changed]
    obtain ⟨sameData, sameLength⟩ := not_or.mp changed
    rw [not_not] at sameData sameLength
    have held : h.description.content h.memory = h.described := current sameData sameLength.symm
    rw [isOld]
    refine ⟨consistent, ?_, ?_, ?_⟩
    · rw [consistent.contentLength, sameLength]
      exact Nat.mod_eq_of_lt small
    · rw [held]
      exact consistent.md5
    · intro other
      by_contra nonzero
      rw [held] at other
      exact other (consistent.toi nonzero).symm

/-- One step keeps the description consistent. -/
theorem Consistent.step (consistent : Consistent env h) {e : ContentEvent} (careful : h.Careful env e) :
    Consistent env (h.step env e).1 ∧ ∀ r ∈ (h.step env e).2, r.Right env := by
  cases e with
  | write memory => exact ⟨⟨consistent.length, consistent.null, consistent.contentLength, consistent.md5,
      consistent.toi⟩, by simp [Holding.step]⟩
  | setContent data dataLength => exact consistent.setContent careful
  | setContentFile filename attached =>
    refine ⟨?_, by simp [Holding.step]⟩
    cases attached with
    | notOpened => exact absurd trivial careful
    | notMeasured => exact absurd trivial careful
    | mapped fileHandle address bytes =>
      by_cases other : filename ≠ h.description.filename
      · have run : h.description.setContentFile env h.memory filename (.mapped fileHandle address bytes) =
            (({ h.description.freeFileData with
              filename := filename
              fileHandle := some fileHandle
              data := some address
              dataLength := bytes.length } : Description).resetToi.calculateFileEntry env
                (h.memory.store address bytes), h.memory.store address bytes, .ok ()) := by
          rw [Description.setContentFile, if_pos other]
          rfl
        simp only [Holding.step, run, other, ne_eq, not_false_eq_true, true_and, if_true]
        exact Consistent.calculated (fun null => absurd null (Option.some_ne_none _)) fun nonzero => absurd rfl nonzero
      · have run : h.description.setContentFile env h.memory filename (.mapped fileHandle address bytes) =
            (h.description, h.memory, .ok ()) := by
          rw [Description.setContentFile, if_neg other]
        simp only [Holding.step, run, other, false_and, if_false]
        exact consistent
  | setCompression compression =>
    refine ⟨?_, by simp [Holding.step]⟩
    simp only [Holding.step, Description.setCompression]
    by_cases other : compression ≠ h.description.compressionType
    · rw [if_pos other, if_pos other]
      exact Consistent.calculated consistent.null fun nonzero => absurd rfl nonzero
    · rw [if_neg other, if_neg other]
      exact consistent
  | send tsi nextToi fecOti =>
    refine ⟨⟨consistent.length, consistent.null, consistent.contentLength, consistent.md5, ?_⟩, by simp [Holding.step]⟩
    intro nonzero
    simp only [Holding.step]
    cases takes : h.takesToi tsi with
    | true => exact careful takes
    | false =>
      simp only [takesToi, Bool.or_eq_false_iff, beq_eq_false_iff_ne] at takes
      exact consistent.toi takes.2

end Holding

/-- A description and what the application does with it and with its memory. -/
def contentChanges (env : Env) : Machine Holding ContentEvent ContentReport where
  init h := h.Constructed env
  step h e := some (h.step env e)

/-- In every run of careful calls, what each call of `set_content` with a buffer
leaves describes the bytes that are there now. -/
theorem Holding.reports_right (env : Env) (h : Holding) (log : List ContentReport)
    (reach : (contentChanges env).Reach (fun h _ e => h.Careful env e) h log) : ∀ r ∈ log, r.Right env := by
  have invariant : h.Consistent env ∧ ∀ r ∈ log, r.Right env := by
    refine reach.invariant (I := fun h log => h.Consistent env ∧ ∀ r ∈ log, r.Right env) ?_ ?_
    · exact fun h constructed => ⟨Holding.Constructed.consistent constructed, by simp⟩
    · rintro h log e h' out ⟨consistent, right⟩ careful run
      obtain ⟨rfl, rfl⟩ := Prod.mk.inj (Option.some.inj run)
      obtain ⟨next, here⟩ := consistent.step careful
      refine ⟨next, fun r member => ?_⟩
      rcases List.mem_append.mp member with before | now
      · exact right r before
      · exact here r now
  exact invariant.2

/-- A description of one byte at address 0. -/
def oneByte : Holding where
  memory := fun _ => 0
  description := .ofData (sampleEnv [] []) (fun _ => 0) "f" (some 0) 1
  described := [0]
  assignedFor := []

theorem oneByte_constructed : oneByte.Constructed (sampleEnv [] []) :=
  ⟨rfl, Or.inl ⟨"f", some 0, 1, rfl⟩⟩

/-- Whether a call is careful; it is where it takes no bytes that were written in place. -/
def Holding.careful (h : Holding) : ContentEvent → Bool
  | .write _ => true
  | .setContent data dataLength => decide (dataLength < 2 ^ 32) && data.isSome && decide (h.content = h.described) &&
    decide (h.memory.bytesAt data dataLength = h.described)
  | .setContentFile .. => false
  | .setCompression _ => true
  | .send .. => decide (h.content = h.described)

theorem Holding.careful_spec {env : Env} {h : Holding} {e : ContentEvent} (careful : h.careful e = true) :
    h.Careful env e := by
  cases e with
  | write memory => trivial
  | setContent data dataLength =>
    simp only [Holding.careful, Bool.and_eq_true, decide_eq_true_eq] at careful
    obtain ⟨⟨⟨small, some⟩, current⟩, same⟩ := careful
    exact ⟨small, fun null => by simp [null] at some, fun _ _ => current, fun _ _ => same⟩
  | setContentFile => cases careful
  | setCompression compression => trivial
  | send tsi nextToi fecOti =>
    have current : h.content = h.described := of_decide_eq_true careful
    exact fun _ => current

theorem reports_right_again : ∃ h log, (contentChanges (sampleEnv [] [])).Reach
      (fun h _ e => h.Careful (sampleEnv [] []) e) h log ∧ log.length = 1 ∧ ∀ r ∈ log, r.Right (sampleEnv [] []) := by
  obtain ⟨h, log, reach, one⟩ := Machine.exists_reach (M := contentChanges (sampleEnv [] []))
    (fun h _ e => h.Careful (sampleEnv [] []) e) Holding.careful oneByte
    [.send 7 1 {}, .setContent (some 9) 1] (fun r => r.2.length == 1)
    (fun _ _ _ careful => Holding.careful_spec careful) oneByte_constructed (by decide +kernel)
  exact ⟨h, log, reach, by simpa using one, Holding.reports_right _ h log reach⟩

/-- Content written in place keeps the digest and the TOI of the content before. -/
theorem not_reports_right : ¬ ∀ (env : Env) (h : Holding) (log : List ContentReport),
    (contentChanges env).Reach Machine.always h log → ∀ r ∈ log, r.Right env := by
  intro claim
  obtain ⟨h, log, reach, checked⟩ := Machine.exists_reach (M := contentChanges (sampleEnv [] []))
    Machine.always (fun _ _ => true) oneByte
    [.send 7 1 {}, .write (fun _ => 1), .setContent (some 0) 1]
    (fun r => r.2.any fun report => report.bytes == [1] && report.assignedFor == [0] && report.toi == 1)
    (fun _ _ _ _ => trivial) oneByte_constructed (by decide +kernel)
  obtain ⟨report, member, seen⟩ := List.any_eq_true.mp checked
  simp only [Bool.and_eq_true, beq_iff_eq] at seen
  obtain ⟨⟨bytes, assignedFor⟩, toi⟩ := seen
  have zero := (claim _ h log reach report member).toi (by rw [bytes, assignedFor]; decide)
  omega

end Libflute

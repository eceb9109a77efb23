import Libflute.TableTexts

/-! A table depends on the names of its document, not on their prefixes. -/

namespace Libflute

namespace FileDeliveryTable

/-- Documents with names in proper use that are the same but for their prefixes. -/
structure SameNames (root₁ root₂ : XmlElement) : Prop where
  first : WellNamed root₁
  second : WellNamed root₂
  expands : ∃ t, Scope.expand .innermost {} root₁ = some t ∧ Scope.expand .innermost {} root₂ = some t

/-- Two documents give the same table, or both give none. -/
def SameTable (env : Env) (instanceId : Nat) (buffer₁ buffer₂ : List UInt8) : Prop :=
  (parse env instanceId buffer₁).toOption = (parse env instanceId buffer₂).toOption

/-- What the parser looks up in the documents says the same when every prefix is taken as
its outermost declaration says. -/
def OutermostAlike (instanceId : Nat) (root₁ root₂ : XmlElement) : Prop :=
  ((Scope.expand .outermost {} root₁).bind fun outer => tableOf instanceId outer.tableTexts) =
    (Scope.expand .outermost {} root₂).bind fun outer => tableOf instanceId outer.tableTexts

theorem SameNames.symm {root₁ root₂ : XmlElement} (same : SameNames root₁ root₂) : SameNames root₂ root₁ := by
  obtain ⟨t, expands₁, expands₂⟩ := same.expands
  exact ⟨same.second, same.first, t, expands₂, expands₁⟩

theorem SameNames.parse_first {root₁ root₂ : XmlElement} (same : SameNames root₁ root₂) {env : Env} (instanceId : Nat)
    {buffer : List UInt8} (parsed : env.parseXml buffer = some root₁) :
    (parse env instanceId buffer).toOption =
      (Scope.expand .outermost {} root₁).bind fun outer => tableOf instanceId outer.tableTexts := by
  obtain ⟨t, expands, _⟩ := same.expands
  obtain ⟨outer, outermost⟩ :=
    Scope.BindsAlike.expand .innermost .outermost root₁ {} {} t (fun _ uri bound => ⟨uri, bound⟩) expands
  rw [outermost, Option.bind_some, parse_toOption instanceId parsed ⟨{}, .start, same.first, outermost⟩]

/-- A table with one file, in the default namespace, with an element that no parser looks for. -/
def plainTable : XmlElement := .mk "FDT-Instance" [("xmlns", FdtNamespace.draft2005.uri), ("Expires", "1")] none
  [.mk "File" [("TOI", "1"), ("Content-Location", "a")] none [.mk "Note" [("xmlns", "urn:note")] none []]]

/-- The same table with a prefix for every name but one; the note binds it anew. -/
def prefixedTable : XmlElement :=
  .mk "p:FDT-Instance" [("xmlns:p", FdtNamespace.draft2005.uri), ("p:Expires", "1")] none
    [.mk "p:File" [("p:TOI", "1"), ("Content-Location", "a")] none [.mk "p:Note" [("xmlns:p", "urn:note")] none []]]

/-- The same table with a prefix that the File element declares anew. -/
def reboundTable : XmlElement :=
  .mk "FDT-Instance" [("xmlns", FdtNamespace.draft2005.uri), ("xmlns:p", "urn:other"), ("Expires", "1")] none
    [.mk "p:File" [("xmlns:p", FdtNamespace.draft2005.uri), ("TOI", "1"), ("Content-Location", "a")] none
      [.mk "Note" [("xmlns", "urn:note")] none []]]

def prefixEnv : Env := sampleEnv [plainTable, prefixedTable, reboundTable] []

theorem wellNamed_children {name : String} {attributes : List (String × String)} {children : List XmlElement}
    (distinct : (attributes.map Prod.fst).Nodup)
    (reserved : ∀ attr ∈ attributes, attr.1 ≠ "xmlns:xmlns" ∧ attr.1 ≠ "xmlns:xml")
    (below : ∀ child ∈ children, WellNamed child) : WellNamed (.mk name attributes none children) :=
  .mk _ _ _ _ distinct (fun attr member => ⟨(reserved attr member).1, fun same => absurd same (reserved attr member).2⟩) below

/-- A root with a File element that has one child. -/
theorem wellNamed_table {name file note : String} {attributes fileAttributes noteAttributes : List (String × String)}
    (distinct : (attributes.map Prod.fst).Nodup ∧ (fileAttributes.map Prod.fst).Nodup ∧
      (noteAttributes.map Prod.fst).Nodup)
    (reserved : ∀ attr ∈ attributes ++ fileAttributes ++ noteAttributes, attr.1 ≠ "xmlns:xmlns" ∧ attr.1 ≠ "xmlns:xml") :
    WellNamed (.mk name attributes none [.mk file fileAttributes none [.mk note noteAttributes none []]]) := by
  simp only [List.forall_mem_append] at reserved
  refine wellNamed_children distinct.1 reserved.1.1 (List.forall_mem_singleton.mpr ?_)
  refine wellNamed_children distinct.2.1 reserved.1.2 (List.forall_mem_singleton.mpr ?_)
  exact wellNamed_children distinct.2.2 reserved.2 fun _ none => absurd none List.not_mem_nil

theorem sameNames_prefixed : SameNames plainTable prefixedTable where
  first := wellNamed_table (by decide) (by decide)
  second := wellNamed_table (by decide) (by decide)
  expands := ⟨_, rfl, rfl⟩

theorem sameNames_rebound : SameNames plainTable reboundTable where
  first := wellNamed_table (by decide) (by decide)
  second := wellNamed_table (by decide) (by decide)
  expands := ⟨_, rfl, rfl⟩

theorem parse_plainTable : prefixEnv.parseXml (printDocument plainTable) = some plainTable := by
  simp [prefixEnv, sampleEnv]

theorem parse_prefixedTable : prefixEnv.parseXml (printDocument prefixedTable) = some prefixedTable := by
  have other : printDocument plainTable ≠ printDocument prefixedTable := by decide +kernel
  simp [prefixEnv, sampleEnv, other]

theorem parse_reboundTable : prefixEnv.parseXml (printDocument reboundTable) = some reboundTable := by
  have first : printDocument plainTable ≠ printDocument reboundTable := by decide +kernel
  have second : printDocument prefixedTable ≠ printDocument reboundTable := by decide +kernel
  simp [prefixEnv, sampleEnv, first, second]

end FileDeliveryTable

end Libflute

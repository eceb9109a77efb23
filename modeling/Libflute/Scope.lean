import Libflute.FileDeliveryTable

/-! The names of a document without their prefixes, and what the code's maps of prefixes make of them. -/

namespace Libflute

def xmlUri : String := "http://www.w3.org/XML/1998/namespace"

/-- An element whose names are pairs of a namespace and a local name, without
the declarations of prefixes. -/
inductive ExpandedElement
  | mk (name : String × String) (attributes : List ((String × String) × String)) (text : Option String)
      (children : List ExpandedElement)
  deriving Repr

namespace ExpandedElement

def name : ExpandedElement → String × String
  | mk name _ _ _ => name

def attributes : ExpandedElement → List ((String × String) × String)
  | mk _ attributes _ _ => attributes

def text : ExpandedElement → Option String
  | mk _ _ text _ => text

def children : ExpandedElement → List ExpandedElement
  | mk _ _ _ children => children

end ExpandedElement

/-- What declares a prefix or the default namespace. -/
def isDeclaration (name : String) : Bool :=
  name == "xmlns" || name.toList.take 6 == "xmlns:".toList

/-- The namespaces that are bound at a place of a document. -/
structure Scope where
  defaultNs : String := ""
  uriOf : String → Option String := fun p => if p = "xml" then some xmlUri else none

/-- Which of two declarations of one prefix counts. -/
inductive Rule
  | innermost | outermost

namespace Scope

def enter (rule : Rule) (scope : Scope) (attributes : List (String × String)) : Scope where
  defaultNs := (attributes.lookup "xmlns").getD scope.defaultNs
  uriOf p :=
    let declared := attributes.lookup ("xmlns:" ++ p)
    match rule with
    | .innermost => declared.or (scope.uriOf p)
    | .outermost => (scope.uriOf p).or declared

def expandName (scope : Scope) (name : String) : Option (String × String) :=
  match splitColon name with
  | none => some (scope.defaultNs, name)
  | some (before, behind) => (scope.uriOf before).map fun uri => (uri, behind)

def expandAttributes (scope : Scope) : List (String × String) → Option (List ((String × String) × String))
  | [] => some []
  | attr :: rest =>
    if isDeclaration attr.1 then scope.expandAttributes rest
    else do
      let name ← scope.expandName attr.1
      let later ← scope.expandAttributes rest
      pure ((name, attr.2) :: later)

mutual

/-- The element with its names expanded, if every prefix is bound. An attribute
without a prefix is in the namespace of its element. -/
def expand (rule : Rule) (scope : Scope) : XmlElement → Option ExpandedElement
  | .mk name attributes text children => do
    let inner := scope.enter rule attributes
    let expanded ← inner.expandName name
    let named ← { inner with defaultNs := expanded.1 }.expandAttributes attributes
    let below ← expandAll rule inner children
    pure (.mk expanded named text below)

def expandAll (rule : Rule) (scope : Scope) : List XmlElement → Option (List ExpandedElement)
  | [] => some []
  | child :: rest => do
    let first ← expand rule scope child
    let later ← expandAll rule scope rest
    pure (first :: later)

end

end Scope

namespace Scope
variable (rule : Rule) (scope : Scope)

/-- The expanded name of an element that stands in this scope. -/
def elementName (element : XmlElement) : Option (String × String) :=
  (scope.enter rule element.attributes).expandName element.name

/-- The value of the attribute of an element with this expanded name. -/
def attributeValue (element : XmlElement) (uri name : String) : Option String :=
  (scope.elementName rule element).bind fun own =>
    (element.attributes.find? fun attr => !isDeclaration attr.1 &&
      decide ({ scope.enter rule element.attributes with defaultNs := own.1 }.expandName attr.1 = some (uri, name))).map
        Prod.snd

variable {rule scope}

theorem find_expandAttributes {attributes : List (String × String)} {expanded : List ((String × String) × String)}
    (expands : scope.expandAttributes attributes = some expanded) (uri name : String) :
    (attributes.find? fun attr => !isDeclaration attr.1 && decide (scope.expandName attr.1 = some (uri, name))).map
      Prod.snd = expanded.lookup (uri, name) := by
  induction attributes generalizing expanded with
  | nil =>
    obtain rfl := Option.some.inj expands
    rfl
  | cons attr rest ih =>
    rw [expandAttributes] at expands
    rw [List.find?_cons]
    split at expands
    · next declaration =>
      rw [declaration]
      exact ih expands
    · next ordinary =>
      obtain ⟨own, ownExpands, expands⟩ := Option.bind_eq_some_iff.mp expands
      obtain ⟨later, laterExpands, expands⟩ := Option.bind_eq_some_iff.mp expands
      obtain rfl := Option.some.inj expands
      rw [Bool.eq_false_iff.mpr ordinary, ownExpands, List.lookup_cons]
      by_cases same : own = (uri, name)
      · simp [same]
      · have differs : ((uri, name) == own) = false := by simpa using Ne.symm same
        simp only [Bool.not_false, Bool.true_and, Option.some.injEq, same, decide_false, differs]
        exact ih laterExpands

/-- What an element is called, and its attributes, are in what its names are expanded to. -/
theorem value_of_expand {element : XmlElement} {t : ExpandedElement} (expands : scope.expand rule element = some t) :
    scope.elementName rule element = some t.name ∧
      ∀ uri name, scope.attributeValue rule element uri name = t.attributes.lookup (uri, name) := by
  obtain ⟨name, attributes, text, children⟩ := element
  rw [expand] at expands
  obtain ⟨own, ownExpands, expands⟩ := Option.bind_eq_some_iff.mp expands
  obtain ⟨named, namedExpands, expands⟩ := Option.bind_eq_some_iff.mp expands
  obtain ⟨below, _, expands⟩ := Option.bind_eq_some_iff.mp expands
  obtain rfl := Option.some.inj expands
  have isNamed : scope.elementName rule (.mk name attributes text children) = some own := ownExpands
  refine ⟨isNamed, fun uri name => ?_⟩
  rw [attributeValue, isNamed, Option.bind_some]
  exact find_expandAttributes namedExpands uri name

end Scope

/-- No attribute is there twice, and the reserved prefixes are not declared
against their meaning. -/
inductive WellNamed : XmlElement → Prop
  | mk (name : String) (attributes : List (String × String)) (text : Option String) (children : List XmlElement)
      (distinct : (attributes.map Prod.fst).Nodup)
      (reserved : ∀ attr ∈ attributes, attr.1 ≠ "xmlns:xmlns" ∧ (attr.1 = "xmlns:xml" → attr.2 = xmlUri))
      (below : ∀ child ∈ children, WellNamed child) : WellNamed (.mk name attributes text children)

/-- No namespace that stands for a name without a declared one. -/
structure Searched (uri : String) : Prop where
  xml : uri ≠ "xml"
  xmlns : uri ≠ "xmlns"
  xmlUri : uri ≠ xmlUri
  unknown : uri ≠ "<Unknown>"

theorem searched_of_known {uri : String} (known : FileDeliveryTable.namespaceOfUri uri ≠ none) : Searched uri := by
  unfold FileDeliveryTable.namespaceOfUri at known
  split_ifs at known with h1 h2 h3 h4 <;> try (subst uri; constructor <;> decide)
  exact absurd rfl known

theorem searched_mbms2007 : Searched mbms2007Ns := by constructor <;> decide

theorem searched_mbms2012 : Searched mbms2012Ns := by constructor <;> decide

/-- The code's map of prefixes has what the outermost declarations say. -/
structure Agrees (ns : XmlNamespaces) (scope : Scope) : Prop where
  defaultNs : ∀ uri, Searched uri → (ns.defaultNs = uri ↔ scope.defaultNs = uri)
  bound : ∀ p, scope.uriOf p = (ns.prefixToNs.lookup p).or (if p = "xml" then some xmlUri else none)
  xmlns : ns.prefixToNs.lookup "xmlns" = none

theorem declares_iff {name p : String} :
    name.toList.take 6 = "xmlns:".toList ∧ String.ofList (name.toList.drop 6) = p ↔ name = "xmlns:" ++ p := by
  constructor
  · rintro ⟨start, rfl⟩
    rw [← String.toList_inj]
    refine (List.take_append_drop 6 name.toList).symm.trans ?_
    rw [start, String.toList_append, String.toList_ofList (l := name.toList.drop 6)]
  · rintro rfl
    refine ⟨by simp, ?_⟩
    rw [← String.toList_inj, String.toList_ofList]
    simp

theorem lookup_bindPrefix (ns : XmlNamespaces) (name uri p : String) :
    (ns.bindPrefix name uri).prefixToNs.lookup p =
      (ns.prefixToNs.lookup p).or (if name = p then some uri else none) := by
  unfold XmlNamespaces.bindPrefix
  split
  · next isBound =>
    split
    · next same =>
      subst same
      obtain ⟨old, found⟩ := Option.isSome_iff_exists.mp isBound
      rw [found]
      rfl
    · rw [Option.or_none]
  · rw [List.lookup_append]
    by_cases same : name = p
    · subst same
      simp
    · have other : (p == name) = false := by simpa using Ne.symm same
      simp [List.lookup_cons, other, same]

/-- A prefix that is bound stays as it is; else the element may bind it. -/
theorem lookup_ofElement (element : XmlElement) (ns : XmlNamespaces) (p : String) :
    (XmlNamespaces.ofElement element ns).prefixToNs.lookup p =
      (ns.prefixToNs.lookup p).or (element.attributes.lookup ("xmlns:" ++ p)) := by
  unfold XmlNamespaces.ofElement
  generalize element.attributes = attributes
  induction attributes generalizing ns with
  | nil => simp
  | cons attr rest ih =>
    rw [List.foldl_cons, ih, List.lookup_cons]
    have declares : attr.1.toList.take 6 = "xmlns:".toList ∧ String.ofList (attr.1.toList.drop 6) = p ↔
        attr.1 = "xmlns:" ++ p := declares_iff
    by_cases isDefault : attr.1 = "xmlns"
    · have other : ("xmlns:" ++ p == attr.1) = false := by
        rw [isDefault, beq_eq_false_iff_ne]
        intro same
        have length := congrArg (fun s => s.toList.length) same
        simp at length
      rw [if_pos isDefault, other]
    · rw [if_neg isDefault]
      split
      · next start =>
        rw [lookup_bindPrefix, Option.or_assoc]
        by_cases same : attr.1 = "xmlns:" ++ p
        · have isPrefix := (declares.mpr same).2
          rw [if_pos isPrefix, same]
          simp
        · have other : ¬ String.ofList (attr.1.toList.drop 6) = p := fun isPrefix => same (declares.mp ⟨start, isPrefix⟩)
          have differs : ("xmlns:" ++ p == attr.1) = false := by simpa using Ne.symm same
          rw [if_neg other, differs]
          rfl
      · next noStart =>
        have differs : ("xmlns:" ++ p == attr.1) = false := by
          rw [beq_eq_false_iff_ne]
          exact fun same => noStart (declares.mpr same.symm).1
        rw [differs]

@[simp] theorem bindPrefix_defaultNs (ns : XmlNamespaces) (name uri : String) :
    (ns.bindPrefix name uri).defaultNs = ns.defaultNs := by
  unfold XmlNamespaces.bindPrefix
  split <;> rfl

theorem defaultNs_ofElement (element : XmlElement) (distinct : (element.attributes.map Prod.fst).Nodup)
    (ns : XmlNamespaces) :
    (XmlNamespaces.ofElement element ns).defaultNs = (element.attributes.lookup "xmlns").getD ns.defaultNs := by
  unfold XmlNamespaces.ofElement
  revert distinct
  generalize element.attributes = attributes
  intro distinct
  induction attributes generalizing ns with
  | nil => rfl
  | cons attr rest ih =>
    rw [List.map_cons, List.nodup_cons] at distinct
    rw [List.foldl_cons, ih _ distinct.2, List.lookup_cons]
    by_cases isDefault : attr.1 = "xmlns"
    · have later : rest.lookup "xmlns" = none := by
        rw [List.lookup_eq_none_iff]
        intro other member
        rw [bne_iff_ne]
        intro same
        exact distinct.1 (isDefault ▸ same ▸ List.mem_map_of_mem member)
      rw [if_pos isDefault, isDefault, later]
      simp
    · have other : ("xmlns" == attr.1) = false := by simpa using Ne.symm isDefault
      rw [if_neg isDefault, other]
      split <;> simp

namespace Agrees
variable {ns : XmlNamespaces} {scope : Scope}

theorem start : Agrees {} {} where
  defaultNs _ _ := Iff.rfl
  bound _ := rfl
  xmlns := rfl

theorem enter (agrees : Agrees ns scope) {element : XmlElement} (well : WellNamed element) :
    Agrees (.ofElement element ns) (scope.enter .outermost element.attributes) := by
  obtain ⟨name, attributes, text, children, distinct, reserved, below⟩ := well
  have declared : ∀ p uri, attributes.lookup ("xmlns:" ++ p) = some uri → ("xmlns:" ++ p, uri) ∈ attributes := by
    intro p uri found
    obtain ⟨before, behind, split, _⟩ := List.lookup_eq_some_iff.mp found
    rw [split]
    simp
  refine ⟨?_, ?_, ?_⟩
  · intro uri searched
    rw [defaultNs_ofElement (.mk name attributes text children) distinct]
    change (attributes.lookup "xmlns").getD ns.defaultNs = uri ↔ (attributes.lookup "xmlns").getD scope.defaultNs = uri
    cases attributes.lookup "xmlns" with
    | none => exact agrees.defaultNs uri searched
    | some own => exact Iff.rfl
  · intro p
    rw [lookup_ofElement]
    change (scope.uriOf p).or (attributes.lookup ("xmlns:" ++ p)) =
      ((ns.prefixToNs.lookup p).or (attributes.lookup ("xmlns:" ++ p))).or _
    rw [agrees.bound]
    split
    · next isXml =>
      -- what the element may say of this prefix is what it stands for anyway
      subst isXml
      cases found : attributes.lookup ("xmlns:" ++ "xml") with
      | none => simp
      | some uri =>
        obtain rfl := (reserved _ (declared _ _ found)).2 rfl
        cases ns.prefixToNs.lookup "xml" <;> rfl
    · simp
  · rw [lookup_ofElement, agrees.xmlns, Option.none_or]
    cases found : attributes.lookup ("xmlns:" ++ "xmlns") with
    | none => exact found
    | some uri => exact absurd rfl (reserved _ (declared _ _ found)).1

/-- A prefix with a namespace stands for it in the code as well, unless it is the
one that nobody declares. -/
theorem lookup_cases (agrees : Agrees ns scope) {p uri : String} (bound : scope.uriOf p = some uri) :
    ns.prefixToNs.lookup p = some uri ∨ ns.prefixToNs.lookup p = none ∧ p = "xml" ∧ uri = xmlUri := by
  rw [agrees.bound] at bound
  cases found : ns.prefixToNs.lookup p with
  | some own =>
    rw [found, Option.some_or] at bound
    exact Or.inl bound
  | none =>
    rw [found, Option.none_or] at bound
    split at bound
    · next isXml => exact Or.inr ⟨rfl, isXml, (Option.some.inj bound).symm⟩
    · cases bound

theorem matchesName_iff (agrees : Agrees ns scope) {prefixedName uri : String} {expanded : String × String}
    (expands : scope.expandName prefixedName = some expanded) (searched : Searched uri) (name : String) :
    ns.matchesName prefixedName name uri = true ↔ expanded = (uri, name) := by
  unfold Scope.expandName at expands
  unfold XmlNamespaces.matchesName
  cases split : splitColon prefixedName with
  | none =>
    rw [split] at expands
    obtain rfl := Option.some.inj expands
    have same := agrees.defaultNs uri searched
    simp only [Bool.and_eq_true, beq_iff_eq, Prod.mk.injEq, eq_comm (a := uri), same, eq_comm (a := name)]
    exact and_comm
  | some parts =>
    obtain ⟨before, behind⟩ := parts
    rw [split] at expands
    obtain ⟨own, bound, rfl⟩ := Option.map_eq_some_iff.mp expands
    simp only [Bool.and_eq_true, beq_iff_eq, Prod.mk.injEq]
    rcases agrees.lookup_cases bound with found | ⟨unbound, rfl, rfl⟩
    · rw [found, Option.getD_some, eq_comm (a := uri), eq_comm (a := name)]
      exact and_comm
    · rw [unbound, Option.getD_none]
      exact iff_of_false (fun both => searched.xml both.2) fun both => searched.xmlUri both.1.symm

theorem elementNamespace_iff (agrees : Agrees ns scope) {element : XmlElement} {expanded : String × String}
    (expands : scope.expandName element.name = some expanded) {uri : String} (searched : Searched uri) :
    ns.elementNamespace element = uri ↔ expanded.1 = uri := by
  unfold Scope.expandName at expands
  unfold XmlNamespaces.elementNamespace
  cases split : splitColon element.name with
  | none =>
    rw [split] at expands
    obtain rfl := Option.some.inj expands
    exact agrees.defaultNs uri searched
  | some parts =>
    obtain ⟨before, behind⟩ := parts
    rw [split] at expands
    obtain ⟨own, bound, rfl⟩ := Option.map_eq_some_iff.mp expands
    simp only
    rcases agrees.lookup_cases bound with found | ⟨unbound, rfl, rfl⟩
    · rw [found, Option.getD_some]
    · rw [unbound, Option.getD_none]
      exact iff_of_false (fun same => searched.unknown same.symm) fun same => searched.xmlUri same.symm

/-- A declaration is never taken for an attribute of the table. -/
theorem matchesName_declaration (agrees : Agrees ns scope) {prefixedName name uri : String}
    (declaration : isDeclaration prefixedName = true) (searched : Searched uri) (noXmlns : name ≠ "xmlns") :
    ns.matchesName prefixedName name uri = false := by
  rw [isDeclaration, Bool.or_eq_true, beq_iff_eq, beq_iff_eq] at declaration
  unfold XmlNamespaces.matchesName
  rcases declaration with rfl | start
  · have split : splitColon "xmlns" = none := by decide
    rw [split]
    simp [noXmlns]
  · obtain ⟨rest, rfl⟩ : ∃ rest, prefixedName = "xmlns:" ++ rest := ⟨_, declares_iff.mp ⟨start, rfl⟩⟩
    have split : splitColon ("xmlns:" ++ rest) = some ("xmlns", rest) := by
      unfold splitColon
      rw [String.toList_append]
      simp [List.span_eq_takeWhile_dropWhile]
    rw [split]
    simp only [agrees.xmlns, Option.getD_none, Bool.and_eq_false_iff]
    exact Or.inr (beq_eq_false_iff_ne.mpr searched.xmlns)

theorem find_attribute (agrees : Agrees ns scope) {attributes : List (String × String)}
    {expanded : List ((String × String) × String)} (expands : scope.expandAttributes attributes = some expanded)
    {name uri : String} (searched : Searched uri) (noXmlns : name ≠ "xmlns") :
    (attributes.find? fun attr => ns.matchesName attr.1 name uri).map Prod.snd = expanded.lookup (uri, name) := by
  induction attributes generalizing expanded with
  | nil =>
    obtain rfl := Option.some.inj expands
    rfl
  | cons attr rest ih =>
    rw [Scope.expandAttributes] at expands
    rw [List.find?_cons]
    split at expands
    · next declaration =>
      rw [agrees.matchesName_declaration declaration searched noXmlns]
      exact ih expands
    · obtain ⟨own, ownExpands, expands⟩ := Option.bind_eq_some_iff.mp expands
      obtain ⟨later, laterExpands, expands⟩ := Option.bind_eq_some_iff.mp expands
      obtain rfl := Option.some.inj expands
      have isThis := agrees.matchesName_iff ownExpands searched name
      rw [List.lookup_cons]
      by_cases same : own = (uri, name)
      · rw [isThis.mpr same, same]
        simp
      · have differs : ((uri, name) == own) = false := by simpa using Ne.symm same
        rw [Bool.eq_false_iff.mpr (mt isThis.mp same), differs]
        exact ih laterExpands

end Agrees

section rules

/-- Two scopes that bind the same prefixes. -/
def Scope.BindsAlike (scope₁ scope₂ : Scope) : Prop :=
  ∀ p uri, scope₁.uriOf p = some uri → ∃ uri', scope₂.uriOf p = some uri'

variable {scope₁ scope₂ : Scope}

theorem Scope.BindsAlike.enter (alike : scope₁.BindsAlike scope₂) (rule₁ rule₂ : Rule)
    (attributes : List (String × String)) : (scope₁.enter rule₁ attributes).BindsAlike (scope₂.enter rule₂ attributes) := by
  have enters : ∀ (rule : Rule) (scope : Scope) p, (∃ uri, (scope.enter rule attributes).uriOf p = some uri) ↔
      (∃ uri, scope.uriOf p = some uri) ∨ ∃ uri, attributes.lookup ("xmlns:" ++ p) = some uri := by
    intro rule scope p
    simp only [← Option.isSome_iff_exists, Scope.enter]
    cases rule <;> simp [Option.isSome_or, or_comm]
  intro p uri bound
  refine (enters rule₂ scope₂ p).mpr ?_
  rcases (enters rule₁ scope₁ p).mp ⟨uri, bound⟩ with ⟨outer, isOuter⟩ | declared
  · exact Or.inl (alike p outer isOuter)
  · exact Or.inr declared

theorem Scope.BindsAlike.expandName (alike : scope₁.BindsAlike scope₂) {name : String} {expanded : String × String}
    (expands : scope₁.expandName name = some expanded) : ∃ expanded', scope₂.expandName name = some expanded' := by
  unfold Scope.expandName at expands ⊢
  cases split : splitColon name with
  | none => exact ⟨_, rfl⟩
  | some parts =>
    rw [split] at expands
    obtain ⟨uri, bound, _⟩ := Option.map_eq_some_iff.mp expands
    obtain ⟨uri', bound'⟩ := alike _ _ bound
    exact ⟨(uri', parts.2), by simp [bound']⟩

theorem Scope.BindsAlike.expandAttributes (alike : scope₁.BindsAlike scope₂) {attributes : List (String × String)}
    {expanded : List ((String × String) × String)} (expands : scope₁.expandAttributes attributes = some expanded) :
    ∃ expanded', scope₂.expandAttributes attributes = some expanded' := by
  induction attributes generalizing expanded with
  | nil => exact ⟨[], rfl⟩
  | cons attr rest ih =>
    rw [Scope.expandAttributes] at expands ⊢
    split at expands
    · next declaration =>
      rw [if_pos declaration]
      exact ih expands
    · next ordinary =>
      obtain ⟨own, ownExpands, expands⟩ := Option.bind_eq_some_iff.mp expands
      obtain ⟨later, laterExpands, _⟩ := Option.bind_eq_some_iff.mp expands
      obtain ⟨own', ownExpands'⟩ := alike.expandName ownExpands
      obtain ⟨later', laterExpands'⟩ := ih laterExpands
      rw [if_neg ordinary, ownExpands', laterExpands']
      exact ⟨_, rfl⟩

mutual

/-- Whether the names of an element can be expanded does not depend on the rule. -/
theorem Scope.BindsAlike.expand (rule₁ rule₂ : Rule) : ∀ (element : XmlElement) (scope₁ scope₂ : Scope)
    (t : ExpandedElement), scope₁.BindsAlike scope₂ → scope₁.expand rule₁ element = some t →
    ∃ t', scope₂.expand rule₂ element = some t'
  | .mk name attributes text children, scope₁, scope₂, t, alike, expands => by
    rw [Scope.expand] at expands ⊢
    have entered := alike.enter rule₁ rule₂ attributes
    obtain ⟨own, ownExpands, expands⟩ := Option.bind_eq_some_iff.mp expands
    obtain ⟨named, namedExpands, expands⟩ := Option.bind_eq_some_iff.mp expands
    obtain ⟨below, belowExpands, _⟩ := Option.bind_eq_some_iff.mp expands
    obtain ⟨own', ownExpands'⟩ := entered.expandName ownExpands
    have inElement : Scope.BindsAlike { scope₁.enter rule₁ attributes with defaultNs := own.1 }
        { scope₂.enter rule₂ attributes with defaultNs := own'.1 } := entered
    obtain ⟨named', namedExpands'⟩ := inElement.expandAttributes namedExpands
    obtain ⟨below', belowExpands'⟩ := Scope.BindsAlike.expandAll rule₁ rule₂ children _ _ below entered belowExpands
    simp only [ownExpands', Option.bind_eq_bind, Option.bind_some, namedExpands', belowExpands']
    exact ⟨_, rfl⟩

theorem Scope.BindsAlike.expandAll (rule₁ rule₂ : Rule) : ∀ (children : List XmlElement) (scope₁ scope₂ : Scope)
    (below : List ExpandedElement), scope₁.BindsAlike scope₂ → scope₁.expandAll rule₁ children = some below →
    ∃ below', scope₂.expandAll rule₂ children = some below'
  | [], _, _, _, _, _ => ⟨[], rfl⟩
  | child :: rest, scope₁, scope₂, below, alike, expands => by
    rw [Scope.expandAll] at expands ⊢
    obtain ⟨first, firstExpands, expands⟩ := Option.bind_eq_some_iff.mp expands
    obtain ⟨later, laterExpands, _⟩ := Option.bind_eq_some_iff.mp expands
    obtain ⟨first', firstExpands'⟩ := Scope.BindsAlike.expand rule₁ rule₂ child scope₁ scope₂ first alike firstExpands
    obtain ⟨later', laterExpands'⟩ := Scope.BindsAlike.expandAll rule₁ rule₂ rest scope₁ scope₂ later alike laterExpands
    simp only [firstExpands', Option.bind_eq_bind, Option.bind_some, laterExpands']
    exact ⟨_, rfl⟩

end

end rules

/-- The code reads an element as one with expanded names. -/
def Reads (ns : XmlNamespaces) (element : XmlElement) (t : ExpandedElement) : Prop :=
  ∃ scope, Agrees ns scope ∧ WellNamed element ∧ scope.expand .outermost element = some t

theorem reads_all {ns : XmlNamespaces} {scope : Scope} (agrees : Agrees ns scope) {children : List XmlElement}
    (well : ∀ child ∈ children, WellNamed child) {below : List ExpandedElement}
    (expands : scope.expandAll .outermost children = some below) : List.Forall₂ (Reads ns) children below := by
  induction children generalizing below with
  | nil =>
    obtain rfl := Option.some.inj expands
    exact .nil
  | cons child rest ih =>
    rw [Scope.expandAll] at expands
    obtain ⟨first, firstExpands, expands⟩ := Option.bind_eq_some_iff.mp expands
    obtain ⟨later, laterExpands, expands⟩ := Option.bind_eq_some_iff.mp expands
    obtain rfl := Option.some.inj expands
    rw [List.forall_mem_cons] at well
    exact .cons ⟨scope, agrees, well.1, firstExpands⟩ (ih well.2 laterExpands)

namespace Reads
variable {ns : XmlNamespaces} {element : XmlElement} {t : ExpandedElement}

/-- An element that is read, with the namespaces that hold in it. -/
theorem inner (reads : Reads ns element t) : ∃ scope, Agrees (.ofElement element ns) scope ∧
    scope.expandName element.name = some t.name ∧
    { scope with defaultNs := t.name.1 }.expandAttributes element.attributes = some t.attributes ∧
    element.text = t.text ∧ List.Forall₂ (Reads (.ofElement element ns)) element.children t.children := by
  obtain ⟨scope, agrees, well, expands⟩ := reads
  have entered := agrees.enter well
  obtain ⟨name, attributes, text, children, distinct, reserved, below⟩ := well
  rw [Scope.expand] at expands
  obtain ⟨own, ownExpands, expands⟩ := Option.bind_eq_some_iff.mp expands
  obtain ⟨named, namedExpands, expands⟩ := Option.bind_eq_some_iff.mp expands
  obtain ⟨later, laterExpands, expands⟩ := Option.bind_eq_some_iff.mp expands
  obtain rfl := Option.some.inj expands
  exact ⟨_, entered, ownExpands, namedExpands, rfl, reads_all entered below laterExpands⟩

theorem matchesElement_iff (reads : Reads ns element t) {uri : String} (searched : Searched uri) (name : String) :
    ns.matchesElement element name uri = true ↔ t.name = (uri, name) := by
  obtain ⟨scope, agrees, named, _⟩ := reads.inner
  exact agrees.matchesName_iff named searched name

theorem findAttribute (reads : Reads ns element t) {name uri : String} (searched : Searched uri)
    (noXmlns : name ≠ "xmlns") :
    (XmlNamespaces.ofElement element ns).findAttribute element name uri = t.attributes.lookup (uri, name) := by
  obtain ⟨scope, agrees, named, attributes, _⟩ := reads.inner
  have inElement : Agrees { XmlNamespaces.ofElement element ns with
      defaultNs := (XmlNamespaces.ofElement element ns).elementNamespace element }
      { scope with defaultNs := t.name.1 } :=
    ⟨fun uri searched => agrees.elementNamespace_iff named searched, agrees.bound, agrees.xmlns⟩
  exact inElement.find_attribute attributes searched noXmlns

theorem find_child {children : List XmlElement} {below : List ExpandedElement}
    (reads : List.Forall₂ (Reads ns) children below) (name : String) {uri : String} (searched : Searched uri) :
    Option.Rel (Reads ns) (children.find? fun child => ns.matchesElement child name uri)
      (below.find? fun child => child.name = (uri, name)) := by
  induction reads with
  | nil => exact .none
  | @cons child t rest later first _ ih =>
    have isThis := first.matchesElement_iff searched name
    rw [List.find?_cons, List.find?_cons]
    by_cases same : t.name = (uri, name)
    · rw [isThis.mpr same, decide_eq_true same]
      exact .some first
    · rw [Bool.eq_false_iff.mpr (mt isThis.mp same), decide_eq_false same]
      exact ih

theorem findChildElement (reads : Reads ns element t) (name : String) {uri : String} (searched : Searched uri) :
    Option.Rel (Reads (.ofElement element ns)) ((XmlNamespaces.ofElement element ns).findChildElement element name uri)
      (t.children.find? fun child => child.name = (uri, name)) := by
  obtain ⟨_, _, _, _, _, children⟩ := reads.inner
  exact find_child children name searched

end Reads

end Libflute

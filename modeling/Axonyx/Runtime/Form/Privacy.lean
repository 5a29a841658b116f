import Axonyx.Runtime.Form.Result

/-! What a replay can show. A field is offered by a tree when a form that matches the result
allows it and has a safe control for it; the replay of a request is a function of the values
of the offered fields. -/
namespace Axonyx.Runtime.Form

open Axonyx.Core

section Offers

/-- The control takes a value: an input of a kind that is replayed, a text area, or a select
of one option. -/
def Takes (tag : String) (attrs : List Attribute) : Prop :=
  (tag = "input" ∧ inputKind attrs ∈ ["checkbox", "radio"] ++ textKinds) ∨ tag = "textarea" ∨
    (tag = "select" ∧ hasAttr attrs "multiple" = false)

/-- A control whose field the form allows, that is not disabled beyond recovery, and that no
secret is filled into. -/
structure SafeControl (allowed : List String) (tag : String) (attrs : List Attribute) (name : String) :
    Prop where
  named : firstAttr attrs "name" = some name
  listed : name ∈ allowed
  enabled : hasAttr attrs "disabled" = false ∨ isDisabledRecovery tag attrs = true
  unsecret : ∀ attr ∈ attrs, isSecretAutocomplete attr = false
  takes : Takes tag attrs

variable (result : AxFormResult)

/-- A form around the node, or in it, offers the field through a safe control. -/
inductive Offers : Scope → AxNode → String → Prop where
  | here {scope tag attrs children name} (matching : (enter result scope tag attrs).matching = true)
      (control : SafeControl (enter result scope tag attrs).allowed tag attrs name) :
      Offers scope (.element tag attrs children) name
  | inside {scope tag attrs children child name} (member : child ∈ children)
      (offered : Offers (enter result scope tag attrs) child name) :
      Offers scope (.element tag attrs children) name

/-- The forms of a whole tree offer the field. -/
def Offered (node : AxNode) (name : String) : Prop := Offers result ⟨false, []⟩ node name

end Offers

section Controls

theorem replayableName_some {tag : String} {attrs : List Attribute} {allowed : List String} {name : String}
    (found : replayableName tag attrs allowed = some name) :
    firstAttr attrs "name" = some name ∧ name ∈ allowed ∧
      (hasAttr attrs "disabled" = false ∨ isDisabledRecovery tag attrs = true) ∧
      ∀ attr ∈ attrs, isSecretAutocomplete attr = false := by
  rw [replayableName] at found
  split at found
  · cases found
  next other named =>
    split at found
    · cases found
    next permitted =>
      split at found
      · cases found
      next unsecret =>
        obtain rfl := Option.some.inj found
        rw [not_or, not_not] at permitted
        refine ⟨named, permitted.1, ?_, ?_⟩
        · cases disabled : hasAttr attrs "disabled" with
          | false => exact .inl rfl
          | true =>
            refine .inr ?_
            by_contra active
            exact permitted.2 ⟨disabled, Bool.eq_false_iff.mpr active⟩
        · intro attr member
          by_contra secret
          exact unsecret (List.any_eq_true.mpr ⟨attr, member, Bool.eq_true_of_not_eq_false secret⟩)

/-- A control that takes no value stays as it is. -/
theorem fillControl_of_not_takes {tag : String} {attrs : List Attribute} (children : List AxNode)
    (value : Option String) (refuses : ¬ Takes tag attrs) :
    fillControl tag attrs children value = (attrs, children) := by
  simp only [Takes, not_or, not_and, List.mem_append] at refuses
  obtain ⟨input, area, select⟩ := refuses
  by_cases isInput : tag = "input"
  · obtain ⟨plain, typed⟩ := input isInput
    simp only [fillControl, if_pos isInput, if_neg plain, if_neg typed]
  · have noSelect : ¬ (tag = "select" ∧ hasAttr attrs "multiple" = false) := fun both => select both.1 both.2
    simp only [fillControl, if_neg isInput, if_neg area, if_neg noSelect]

/-- Replaying a control changes nothing, or fills a safe control with the value of its field. -/
theorem replayControl_cases (tag : String) (attrs : List Attribute) (children : List AxNode)
    (allowed : List String) :
    (∀ submitted, replayControl tag attrs children allowed submitted = (attrs, children)) ∨
      ∃ name, SafeControl allowed tag attrs name ∧ ∀ submitted,
        replayControl tag attrs children allowed submitted =
          fillControl tag attrs children (submitted.lookup name) := by
  cases found : replayableName tag attrs allowed with
  | none =>
    refine .inl fun submitted => ?_
    rw [replayControl, found]
  | some name =>
    obtain ⟨named, listed, enabled, unsecret⟩ := replayableName_some found
    by_cases takes : Takes tag attrs
    · refine .inr ⟨name, ⟨named, listed, enabled, unsecret, takes⟩, fun submitted => ?_⟩
      rw [replayControl, found]
    · refine .inl fun submitted => ?_
      rw [replayControl, found]
      exact fillControl_of_not_takes children _ takes

end Controls

section Options

mutual

/-- Choosing an option changes no text but the marks of the options. -/
theorem selectOption_shows {value text : String} : ∀ {node : AxNode},
    (selectOption value node).Shows text → node.Shows text ∨ text = "true"
  | .text content => fun shown => .inl shown
  | .rawHtml content => fun shown => .inl shown
  | .element tag attrs children => by
    intro shown
    rw [selectOption] at shown
    split at shown
    · split at shown
      · cases shown with
        | attr member =>
          rcases mem_setAttr member with old | rfl
          · exact .inl (.attr old)
          · exact .inr rfl
        | child member inside => exact .inl (.child member inside)
      · cases shown with
        | attr member => exact .inl (.attr (mem_dropAttr member))
        | child member inside => exact .inl (.child member inside)
    · split at shown
      · cases shown with
        | attr member => exact .inl (.attr member)
        | child member inside =>
          rcases selectOptions_shows member inside with ⟨child, old, shown⟩ | mark
          · exact .inl (.child old shown)
          · exact .inr mark
      · exact .inl shown

theorem selectOptions_shows {value text : String} {chosen : AxNode} : ∀ {nodes : List AxNode},
    chosen ∈ selectOptions value nodes → chosen.Shows text →
      (∃ child ∈ nodes, child.Shows text) ∨ text = "true"
  | [] => fun member => nomatch member
  | node :: rest => by
    intro member shown
    rcases List.mem_cons.mp member with rfl | later
    · rcases selectOption_shows shown with old | mark
      · exact .inl ⟨node, List.mem_cons_self, old⟩
      · exact .inr mark
    · rcases selectOptions_shows later shown with ⟨child, old, shown⟩ | mark
      · exact .inl ⟨child, List.mem_cons_of_mem _ old, shown⟩
      · exact .inr mark

end

theorem not_takes_option {attrs : List Attribute} : ¬ Takes "option" attrs := by
  rintro (⟨isInput, _⟩ | isArea | ⟨isSelect, _⟩)
  · exact absurd isInput (by decide)
  · exact absurd isArea (by decide)
  · exact absurd isSelect (by decide)

theorem enter_of_not_form {result : AxFormResult} {tag : String} (plain : tag ≠ "form") (scope : Scope)
    (attrs : List Attribute) : enter result scope tag attrs = scope := if_neg plain

/-- Nothing about the offers of an option depends on its attributes. -/
theorem offers_option {result : AxFormResult} {scope : Scope} {attrs attrs' : List Attribute}
    {children : List AxNode} {name : String} (offered : Offers result scope (.element "option" attrs children) name) :
    Offers result scope (.element "option" attrs' children) name := by
  have plain : "option" ≠ "form" := by decide
  cases offered with
  | here matching control => exact absurd control.takes not_takes_option
  | inside member offered =>
    rw [enter_of_not_form plain] at offered
    refine .inside member ?_
    rwa [enter_of_not_form plain]

mutual

/-- Choosing an option adds no offer. -/
theorem selectOption_offers {result : AxFormResult} {scope : Scope} {value name : String} :
    ∀ {node : AxNode}, Offers result scope (selectOption value node) name → Offers result scope node name
  | .text content => fun offered => offered
  | .rawHtml content => fun offered => offered
  | .element tag attrs children => by
    intro offered
    rw [selectOption] at offered
    split at offered
    next isOption =>
      subst isOption
      split at offered <;> exact offers_option offered
    next =>
      split at offered
      next isGroup =>
        subst isGroup
        cases offered with
        | here matching control => exact .here matching control
        | inside member inner =>
          obtain ⟨child, old, inner⟩ := selectOptions_offers member inner
          exact .inside old inner
      next => exact offered

theorem selectOptions_offers {result : AxFormResult} {scope : Scope} {value name : String} {chosen : AxNode} :
    ∀ {nodes : List AxNode}, chosen ∈ selectOptions value nodes → Offers result scope chosen name →
      ∃ child ∈ nodes, Offers result scope child name
  | [] => fun member => nomatch member
  | node :: rest => by
    intro member offered
    rcases List.mem_cons.mp member with rfl | later
    · exact ⟨node, List.mem_cons_self, selectOption_offers offered⟩
    · obtain ⟨child, old, inner⟩ := selectOptions_offers later offered
      exact ⟨child, List.mem_cons_of_mem _ old, inner⟩

end

end Options

section Depths

mutual

theorem selectOption_depth (value : String) : ∀ node : AxNode, (selectOption value node).depth = node.depth
  | .text content => rfl
  | .rawHtml content => rfl
  | .element tag attrs children => by
    rw [selectOption]
    split
    · split <;> rfl
    · split
      · rw [AxNode.depth, AxNode.depth, selectOptions_depth value children]
      · rfl

theorem selectOptions_depth (value : String) : ∀ nodes : List AxNode,
    depths (selectOptions value nodes) = depths nodes
  | [] => rfl
  | node :: rest => by
    rw [selectOptions, depths, depths, selectOption_depth value node, selectOptions_depth value rest]

end

/-- The children of a changed node: as they were, with an option chosen, or one text. -/
def Rearranged (before after : List AxNode) : Prop :=
  after = before ∨ (∃ value, after = selectOptions value before) ∨ ∃ content, after = [.text content]

theorem rearranged_fillControl (tag : String) (attrs : List Attribute) (children : List AxNode)
    (value : Option String) : Rearranged children (fillControl tag attrs children value).2 := by
  rw [fillControl.eq_def]
  repeat' split
  all_goals first | exact .inl rfl | exact .inr (.inl ⟨_, rfl⟩) | exact .inr (.inr ⟨_, rfl⟩)

theorem showErrors_children (result : AxFormResult) (tag : String) (attrs : List Attribute)
    (children : List AxNode) :
    (showErrors result tag attrs children).2 = children ∨
      ∃ content, (showErrors result tag attrs children).2 = [.text content] := by
  rw [showErrors]
  cases (firstAttr attrs "data-ax-field-error").bind (lookup result.fields ·) <;> dsimp only <;> split <;>
    first | exact .inl rfl | exact .inr ⟨_, rfl⟩

theorem rearranged_applyHere (result : AxFormResult) (scope : Scope) (tag : String) (attrs : List Attribute)
    (children : List AxNode) : Rearranged children (applyHere result scope tag attrs children).2 := by
  have shown (attrs : List Attribute) (changed : List AxNode) (start : Rearranged children changed) :
      Rearranged children (showErrors result tag attrs changed).2 := by
    rcases showErrors_children result tag attrs changed with same | ⟨content, text⟩
    · rwa [same]
    · exact .inr (.inr ⟨content, text⟩)
  rw [applyHere]
  split
  · cases result.submitted with
    | none => exact shown _ _ (.inl rfl)
    | some submitted =>
      rcases replayControl_cases tag attrs children scope.allowed with same | ⟨name, _, filled⟩
      · simp only [same]
        exact shown _ _ (.inl rfl)
      · simp only [filled]
        exact shown _ _ (rearranged_fillControl tag attrs children _)
  · exact .inl rfl

/-- The depth of a tree is deep enough: going further down changes nothing. -/
theorem applyNode_deeper {result : AxFormResult} {depth : Nat} {scope : Scope} {node : AxNode}
    (deep : node.depth ≤ depth) :
    applyNode result (depth + 1) scope node = applyNode result depth scope node := by
  induction depth generalizing scope node with
  | zero =>
    cases node <;> simp [AxNode.depth] at deep
  | succ depth ih =>
    cases node with
    | text content => rfl
    | rawHtml content => rfl
    | element tag attrs children =>
      have below : depths children ≤ depth := Nat.le_of_succ_le_succ deep
      have each (child : AxNode)
          (member : child ∈ (applyHere result (enter result scope tag attrs) tag attrs children).2) :
          child.depth ≤ depth ∨ ∃ content, child = .text content := by
        rcases rearranged_applyHere result (enter result scope tag attrs) tag attrs children with
          same | ⟨value, chosen⟩ | ⟨content, text⟩
        · rw [same] at member
          exact .inl ((depth_le_depths member).trans below)
        · rw [chosen] at member
          exact .inl ((depth_le_depths member).trans (by rwa [selectOptions_depth]))
        · rw [text] at member
          exact .inr ⟨content, List.mem_singleton.mp member⟩
      rw [applyNode, applyNode]
      generalize applyHere result (enter result scope tag attrs) tag attrs children = after at each
      obtain ⟨attrs', children'⟩ := after
      dsimp only
      congr 1
      refine List.map_congr_left fun child member => ?_
      rcases each child member with within | ⟨content, rfl⟩
      · exact ih within
      · cases depth <;> rfl

end Depths

section Stages

variable {result : AxFormResult}

/-- A text that a replay may show beside those of the page: a mark, an error of a field, or
the value of a field that the tree offers. -/
def Added (result : AxFormResult) (offered : String → Prop) (text : String) : Prop :=
  text ∈ ["true", "polite"] ∨ (∃ field, (field, text) ∈ result.fields) ∨
    ∃ submitted name, result.submitted = some submitted ∧ offered name ∧ (name, text) ∈ submitted

/-- Each attribute and child of a changed element is an old one up to added texts. -/
structure Grown (result : AxFormResult) (scope : Scope) (offered : String → Prop)
    (before after : List Attribute × List AxNode) : Prop where
  attrs : ∀ attr ∈ after.1, attr ∈ before.1 ∨ Added result offered attr.value
  shows : ∀ child ∈ after.2, ∀ text, child.Shows text →
    (∃ old ∈ before.2, old.Shows text) ∨ Added result offered text
  offers : ∀ child ∈ after.2, ∀ name, Offers result scope child name →
    ∃ old ∈ before.2, Offers result scope old name

theorem Grown.refl (scope : Scope) (offered : String → Prop) (stage : List Attribute × List AxNode) :
    Grown result scope offered stage stage :=
  ⟨fun _ member => .inl member, fun child member _ shown => .inl ⟨child, member, shown⟩,
    fun child member _ offers => ⟨child, member, offers⟩⟩

theorem Grown.trans {scope : Scope} {offered : String → Prop}
    {first second third : List Attribute × List AxNode} (start : Grown result scope offered first second)
    (next : Grown result scope offered second third) : Grown result scope offered first third := by
  refine ⟨fun attr member => ?_, fun child member text shown => ?_, fun child member name offers => ?_⟩
  · rcases next.attrs attr member with old | added
    · exact start.attrs attr old
    · exact .inr added
  · rcases next.shows child member text shown with ⟨old, here, shown⟩ | added
    · exact start.shows old here text shown
    · exact .inr added
  · obtain ⟨old, here, offers⟩ := next.offers child member name offers
    exact start.offers old here name offers

theorem grown_attrs {scope : Scope} {offered : String → Prop} {attrs attrs' : List Attribute}
    {children : List AxNode} (old : ∀ attr ∈ attrs', attr ∈ attrs ∨ Added result offered attr.value) :
    Grown result scope offered (attrs, children) (attrs', children) :=
  ⟨old, fun child member _ shown => .inl ⟨child, member, shown⟩,
    fun child member _ offers => ⟨child, member, offers⟩⟩

theorem grown_setAttr {scope : Scope} {offered : String → Prop} {attrs : List Attribute}
    {children : List AxNode} {name value : String} (added : Added result offered value) :
    Grown result scope offered (attrs, children) (setAttr attrs name value, children) := by
  apply grown_attrs
  intro attr member
  rcases mem_setAttr member with old | rfl
  · exact .inl old
  · exact .inr added

theorem grown_dropAttr {scope : Scope} {offered : String → Prop} {attrs : List Attribute}
    {children : List AxNode} {name : String} :
    Grown result scope offered (attrs, children) (dropAttr attrs name, children) :=
  grown_attrs fun _ member => .inl (mem_dropAttr member)

theorem grown_text {scope : Scope} {offered : String → Prop} {attrs : List Attribute}
    {children : List AxNode} {value : String} (added : Added result offered value) :
    Grown result scope offered (attrs, children) (attrs, [.text value]) := by
  refine ⟨fun _ member => .inl member, fun child member text shown => ?_, fun child member name offers => ?_⟩
  · obtain rfl := List.mem_singleton.mp member
    cases shown
    exact .inr added
  · obtain rfl := List.mem_singleton.mp member
    cases offers

theorem grown_selectOptions {scope : Scope} {offered : String → Prop} {attrs : List Attribute}
    {children : List AxNode} {value : String} :
    Grown result scope offered (attrs, children) (attrs, selectOptions value children) := by
  refine ⟨fun _ member => .inl member, fun child member text shown => ?_, fun child member name offers => ?_⟩
  · rcases selectOptions_shows member shown with old | rfl
    · exact .inl old
    · exact .inr (.inl (by decide))
  · exact selectOptions_offers member offers

theorem mem_of_lookup_eq_some {fields : List (String × String)} {name value : String}
    (found : fields.lookup name = some value) : (name, value) ∈ fields := by
  obtain ⟨before, after, rfl, _⟩ := List.lookup_eq_some_iff.mp found
  simp

/-- A filled control shows the value of its field and nothing else that is new. -/
theorem grown_fillControl {scope : Scope} {offered : String → Prop} {tag : String} {attrs : List Attribute}
    {children : List AxNode} {submitted : List (String × String)} {name : String}
    (given : result.submitted = some submitted) (safe : offered name) :
    Grown result scope offered (attrs, children) (fillControl tag attrs children (submitted.lookup name)) := by
  have mark : Added result offered "true" := .inl (by decide)
  have value {text : String} (found : submitted.lookup name = some text) : Added result offered text :=
    .inr (.inr ⟨submitted, name, given, safe, mem_of_lookup_eq_some found⟩)
  rw [fillControl.eq_def]
  split
  · split
    · split
      · exact grown_setAttr mark
      · exact grown_dropAttr
    · split
      · split
        next found => exact grown_setAttr (value found)
        · exact Grown.refl _ _ _
      · exact Grown.refl _ _ _
  · split
    · split
      next found =>
        split
        · exact (grown_setAttr mark).trans (grown_text (value found))
        · exact grown_text (value found)
      · exact Grown.refl _ _ _
    · split
      · split
        · split
          · exact grown_selectOptions
          · exact Grown.refl _ _ _
        · exact Grown.refl _ _ _
      · exact Grown.refl _ _ _

theorem grown_showErrors {scope : Scope} {offered : String → Prop} (tag : String) (attrs : List Attribute)
    (children : List AxNode) :
    Grown result scope offered (attrs, children) (showErrors result tag attrs children) := by
  have mark : Added result offered "true" := .inl (by decide)
  have polite : Added result offered "polite" := .inl (by decide)
  have flagged (attrs : List Attribute) (children : List AxNode) : Grown result scope offered (attrs, children)
      (if tag ∈ ["input", "select", "textarea"] ∧
          (attrs.any fun attr => attr.name == "name" && (lookup result.fields attr.value).isSome) = true then
        (setAttr attrs "aria-invalid" "true", children)
      else (attrs, children)) := by
    split
    · exact grown_setAttr mark
    · exact Grown.refl _ _ _
  cases found : (firstAttr attrs "data-ax-field-error").bind (lookup result.fields ·) with
  | none =>
    simp only [showErrors, found]
    exact flagged attrs children
  | some message =>
    obtain ⟨field, _, entry⟩ := Option.bind_eq_some_iff.mp found
    have added : Added result offered message := .inr (.inl ⟨field, mem_of_lookup entry⟩)
    simp only [showErrors, found]
    exact ((grown_setAttr polite).trans (grown_text added)).trans (flagged _ _)

/-- What happens at a node adds nothing but marks, errors and the value of a control that a
matching form offers. -/
theorem grown_applyHere {scope : Scope} {offered : String → Prop} {tag : String} {attrs : List Attribute}
    {children : List AxNode}
    (safe : ∀ name, scope.matching = true → SafeControl scope.allowed tag attrs name → offered name) :
    Grown result scope offered (attrs, children) (applyHere result scope tag attrs children) := by
  rw [applyHere]
  split
  next matching =>
    cases given : result.submitted with
    | none => exact grown_showErrors tag attrs children
    | some submitted =>
      rcases replayControl_cases tag attrs children scope.allowed with same | ⟨name, control, filled⟩
      · simp only [same]
        exact grown_showErrors tag attrs children
      · simp only [filled]
        exact (grown_fillControl given (safe name matching control)).trans (grown_showErrors tag _ _)
  · exact Grown.refl _ _ _

/-- A text of the result is a text of the page or an added one. -/
theorem applyNode_shows {depth : Nat} {scope : Scope} {node : AxNode} {text : String}
    (shown : (applyNode result depth scope node).Shows text) :
    node.Shows text ∨ Added result (Offers result scope node) text := by
  induction depth generalizing scope node text with
  | zero =>
    cases node <;> exact .inl shown
  | succ depth ih =>
    cases node with
    | text content => exact .inl shown
    | rawHtml content => exact .inl shown
    | element tag attrs children =>
      have wider {name : String} {child : AxNode} (member : child ∈ children)
          (offered : Offers result (enter result scope tag attrs) child name) :
          Offers result scope (.element tag attrs children) name := .inside member offered
      have grown : Grown result (enter result scope tag attrs) (Offers result scope (.element tag attrs children))
          (attrs, children) (applyHere result (enter result scope tag attrs) tag attrs children) :=
        grown_applyHere fun name matching control => .here matching control
      rw [applyNode] at shown
      generalize applyHere result (enter result scope tag attrs) tag attrs children = stage at grown shown
      cases shown with
      | attr member =>
        rcases grown.attrs _ member with old | added
        · exact .inl (.attr old)
        · exact .inr added
      | child member inside =>
        obtain ⟨child, here, rfl⟩ := List.mem_map.mp member
        rcases ih inside with kept | mark | error | ⟨submitted, name, given, offered, found⟩
        · rcases grown.shows child here text kept with ⟨old, member, shown⟩ | added
          · exact .inl (.child member shown)
          · exact .inr added
        · exact .inr (.inl mark)
        · exact .inr (.inr (.inl error))
        · obtain ⟨old, member, offered⟩ := grown.offers child here name offered
          exact .inr (.inr (.inr ⟨submitted, name, given, wider member offered, found⟩))

end Stages

section Safety

variable {result : AxFormResult}

/-- An offered field has a safe name, and its control is no password and no file. -/
theorem Offers.safe {scope : Scope} {node : AxNode} {name : String} (offered : Offers result scope node name)
    (listed : ∀ name ∈ scope.allowed, safeReplayName name = true) : safeReplayName name = true := by
  have inner (scope : Scope) (tag : String) (attrs : List Attribute)
      (listed : ∀ name ∈ scope.allowed, safeReplayName name = true) :
      ∀ name ∈ (enter result scope tag attrs).allowed, safeReplayName name = true := by
    intro name member
    rw [enter] at member
    split at member
    · simp only [retainedFields] at member
      split at member
      · cases member
      · exact (List.mem_filter.mp (List.mem_of_mem_take member)).2
    · exact listed name member
  induction offered with
  | here matching control => exact inner _ _ _ listed _ control.listed
  | inside member _ ih => exact ih (inner _ _ _ listed)

theorem SafeControl.kind {allowed : List String} {attrs : List Attribute} {name : String}
    (control : SafeControl allowed "input" attrs name) : inputKind attrs ∉ ["password", "file", "hidden"] := by
  have kinds : ∀ kind ∈ ["checkbox", "radio"] ++ textKinds, kind ∉ ["password", "file", "hidden"] := by
    simp [textKinds]
  rcases control.takes with ⟨_, kind⟩ | area | ⟨select, _⟩
  · exact kinds _ kind
  · exact absurd area (by decide)
  · exact absurd select (by decide)

end Safety

section TwoRuns

variable {result : AxFormResult}

/-- The result with the values of a request. -/
def AxFormResult.withValues (result : AxFormResult) (values : List (String × String)) : AxFormResult :=
  { result with submitted := some values }

/-- What a tree offers does not depend on what was submitted. -/
theorem offers_withValues {values : List (String × String)} {scope : Scope} {node : AxNode} {name : String} :
    Offers (result.withValues values) scope node name ↔ Offers result scope node name := by
  constructor
  · intro offered
    induction offered with
    | here matching control => exact .here matching control
    | inside member _ ih => exact .inside member ih
  · intro offered
    induction offered with
    | here matching control => exact .here matching control
    | inside member _ ih => exact .inside member ih

theorem applyHere_agree {first second : List (String × String)} {scope : Scope} {tag : String}
    {attrs : List Attribute} (children : List AxNode)
    (agree : ∀ name, scope.matching = true → SafeControl scope.allowed tag attrs name →
      first.lookup name = second.lookup name) :
    applyHere (result.withValues first) scope tag attrs children =
      applyHere (result.withValues second) scope tag attrs children := by
  rw [applyHere, applyHere]
  split
  next matching =>
    have replayed : replayControl tag attrs children scope.allowed first =
        replayControl tag attrs children scope.allowed second := by
      rcases replayControl_cases tag attrs children scope.allowed with same | ⟨name, control, filled⟩
      · rw [same, same]
      · rw [filled, filled, agree name matching control]
    simp only [AxFormResult.withValues, replayed]
    rfl
  · rfl

/-- Values that agree on the offered fields make one tree. -/
theorem applyNode_agree {first second : List (String × String)} {depth : Nat} {scope : Scope} {node : AxNode}
    (agree : ∀ name, Offers result scope node name → first.lookup name = second.lookup name) :
    applyNode (result.withValues first) depth scope node =
      applyNode (result.withValues second) depth scope node := by
  induction depth generalizing scope node with
  | zero => cases node <;> rfl
  | succ depth ih =>
    cases node with
    | text content => rfl
    | rawHtml content => rfl
    | element tag attrs children =>
      have same (values : List (String × String)) :
          enter (result.withValues values) scope tag attrs = enter result scope tag attrs := rfl
      have grown : Grown (result.withValues first) (enter result scope tag attrs) (fun _ => True)
          (attrs, children) (applyHere (result.withValues first) (enter result scope tag attrs) tag attrs children) :=
        grown_applyHere fun _ _ _ => trivial
      have stage := @applyHere_agree result first second (enter result scope tag attrs) tag attrs children
        fun name matching control => agree name (.here matching control)
      rw [applyNode, applyNode, same, same, ← stage]
      generalize applyHere (result.withValues first) (enter result scope tag attrs) tag attrs children = after
        at grown
      obtain ⟨attrs', children'⟩ := after
      dsimp only
      congr 1
      refine List.map_congr_left fun child member => ih fun name offered => ?_
      obtain ⟨old, here, offered⟩ := grown.offers child member name (offers_withValues.mpr offered)
      exact agree name (.inside here (offers_withValues.mp offered))

/-- Two bodies with the same field names in the same order, whose values differ in fields
that are not offered only. -/
def Differ (offered : String → Prop) (first second : List (String × String)) : Prop :=
  List.Forall₂ (fun field field' => field.1 = field'.1 ∧ (offered field.1 → field.2 = field'.2)) first second

theorem lookup_differ {offered : String → Prop} {first second : List (String × String)}
    (differ : Differ offered first second) (name : String) :
    (first.lookup name).isSome = (second.lookup name).isSome ∧
      (offered name → first.lookup name = second.lookup name) := by
  induction differ with
  | nil => exact ⟨rfl, fun _ => rfl⟩
  | @cons field field' rest rest' head _ ih =>
    obtain ⟨key, value⟩ := field
    obtain ⟨key', value'⟩ := field'
    obtain ⟨same, values⟩ := head
    dsimp only at same values
    subst same
    rw [List.lookup_cons, List.lookup_cons]
    cases here : name == key with
    | true =>
      refine ⟨rfl, fun offers => ?_⟩
      rw [values (eq_of_beq here ▸ offers)]
    | false => exact ih

theorem collectValues_differ {offered : String → Prop} {index : Nat}
    {values values' fields fields' : List (String × String)} (before : Differ offered values values')
    (differ : Differ offered fields fields') :
    Option.Rel (Differ offered) (collectValues index values fields) (collectValues index values' fields') := by
  induction differ generalizing index values values' with
  | nil => exact .some before
  | @cons field field' rest rest' head _ ih =>
    obtain ⟨key, value⟩ := field
    obtain ⟨key', value'⟩ := field'
    have same : key = key' := head.1
    subst same
    rw [collectValues, collectValues, ← (lookup_differ before key).1]
    split
    · exact .none
    split
    · exact ih before
    split
    · exact .none
    · exact ih (List.rel_append before (.cons head .nil))

theorem withRequestValues_eq {request : ActionRequest} {body : String}
    (accepted : result.replayBody request = some body) :
    result.withRequestValues request =
      match collectValues 0 [] (AxHttpRequest.parseUrlencodedFields body) with
      | none => result
      | some values => result.withValues values := by
  rw [AxFormResult.withRequestValues, accepted]
  rfl

/-- The values that are kept are values of the body. -/
theorem mem_of_collectValues {index : Nat} {values fields kept : List (String × String)}
    (collected : collectValues index values fields = some kept) {field : String × String}
    (member : field ∈ kept) : field ∈ values ∨ field ∈ fields := by
  induction fields generalizing index values with
  | nil =>
    obtain rfl := Option.some.inj collected
    exact .inl member
  | cons head rest ih =>
    obtain ⟨name, value⟩ := head
    rw [collectValues] at collected
    split at collected
    · cases collected
    split at collected
    · exact (ih collected).imp id (List.mem_cons_of_mem _)
    split at collected
    · cases collected
    · rcases ih collected with old | later
      · rcases List.mem_append.mp old with before | last
        · exact .inl before
        · exact .inr (by rw [List.mem_singleton.mp last]; exact List.mem_cons_self)
      · exact .inr (List.mem_cons_of_mem _ later)

theorem validation_submitted {action route : String} {errors : Json}
    (validated : AxFormResult.validation action route errors = some result) : result.submitted = none := by
  unfold AxFormResult.validation at validated
  by_cases refused : (!isFieldName action || !Text.startsWith route "/" || Text.startsWith route "//" ||
      2048 < route.utf8ByteSize || route.toList.any (fun c => c ∈ ['\\', '%', '?', '#']) ||
      route.toList.any Text.isControl) = true
  · rw [if_pos refused] at validated
    cases validated
  · rw [if_neg refused] at validated
    rw [← Option.some.inj validated]

/-- Two rejected requests that differ in values of no offered field leave one page behind, and
a submitted value on the page is the value of an offered field. -/
theorem replay_private {action route : String} {errors : Json} {result : AxFormResult} (node : AxNode)
    {first second : ActionRequest} {body body' : String}
    (validated : AxFormResult.validation action route errors = some result)
    (accepted : result.replayBody first = some body) (accepted' : result.replayBody second = some body')
    (differ : Differ (Offered result node) (AxHttpRequest.parseUrlencodedFields body)
      (AxHttpRequest.parseUrlencodedFields body')) :
    (result.withRequestValues first).applyToNode node = (result.withRequestValues second).applyToNode node ∧
      ∀ text, ((result.withRequestValues first).applyToNode node).Shows text →
        node.Shows text ∨ text ∈ ["true", "polite"] ∨ (∃ field, (field, text) ∈ result.fields) ∨
          ∃ name, Offered result node name ∧ (name, text) ∈ AxHttpRequest.parseUrlencodedFields body := by
  have related := @collectValues_differ (Offered result node) 0 _ _ _ _ .nil differ
  rw [withRequestValues_eq accepted, withRequestValues_eq accepted']
  cases collected : collectValues 0 [] (AxHttpRequest.parseUrlencodedFields body) with
  | none =>
    rw [collected] at related
    cases other : collectValues 0 [] (AxHttpRequest.parseUrlencodedFields body') with
    | some values => rw [other] at related; cases related
    | none =>
      refine ⟨rfl, fun text shown => ?_⟩
      rcases applyNode_shows shown with old | mark | error | ⟨submitted, _, given, _⟩
      · exact .inl old
      · exact .inr (.inl mark)
      · exact .inr (.inr (.inl error))
      · rw [validation_submitted validated] at given
        cases given
  | some values =>
    rw [collected] at related
    cases other : collectValues 0 [] (AxHttpRequest.parseUrlencodedFields body') with
    | none => rw [other] at related; cases related
    | some values' =>
      rw [other] at related
      cases related with
      | some agree =>
        refine ⟨applyNode_agree fun name offered => (lookup_differ agree name).2 offered, fun text shown => ?_⟩
        rcases applyNode_shows shown with old | mark | error | ⟨submitted, name, given, offered, found⟩
        · exact .inl old
        · exact .inr (.inl mark)
        · exact .inr (.inr (.inl error))
        · obtain rfl := Option.some.inj given
          refine .inr (.inr (.inr ⟨name, offers_withValues.mp offered, ?_⟩))
          rcases mem_of_collectValues collected found with none | member
          · cases none
          · exact member

def pinResult : AxFormResult := ⟨1, "Save", "/posts", 422, [("title", "Required")], none⟩

def pinRequest (pin : String) : ActionRequest :=
  ⟨⟨"POST", [("Content-Type", "application/x-www-form-urlencoded")], Wire.utf8 ("title=A&pin=" ++ pin), none⟩,
    "/__axonyx/action?name=Save&path=/posts"⟩

/-- A form that allows a title and, by mistake, the field of a password. -/
def pinPage : AxNode :=
  .element "form"
    [⟨"action", "/__axonyx/action?name=Save&path=/posts"⟩, ⟨"data-ax-retain-fields", "title,pin"⟩]
    [.element "input" [⟨"name", "title"⟩] [], .element "input" [⟨"name", "pin"⟩, ⟨"type", "password"⟩] []]

theorem offers_element {result : AxFormResult} {scope : Scope} {tag : String} {attrs : List Attribute}
    {children : List AxNode} {name : String} :
    Offers result scope (.element tag attrs children) name ↔
      ((enter result scope tag attrs).matching = true ∧
        SafeControl (enter result scope tag attrs).allowed tag attrs name) ∨
      ∃ child ∈ children, Offers result (enter result scope tag attrs) child name := by
  constructor
  · intro offered
    cases offered with
    | here matching control => exact .inl ⟨matching, control⟩
    | inside member inner => exact .inr ⟨_, member, inner⟩
  · rintro (⟨matching, control⟩ | ⟨child, member, inner⟩)
    · exact .here matching control
    · exact .inside member inner

/-- What is read of the page, its header and its target. -/
theorem pin_read :
    (firstAttr [⟨"name", "title"⟩] "name" ≠ some "pin" ∧
      inputKind [⟨"name", "pin"⟩, ⟨"type", "password"⟩] = "password") ∧
    ([("Content-Type", "application/x-www-form-urlencoded")].find? fun header =>
      Text.eqIgnoreAsciiCase header.1 "content-type") =
        some ("Content-Type", "application/x-www-form-urlencoded") ∧
    Text.eqIgnoreAsciiCase (Text.trim ((Text.split "application/x-www-form-urlencoded" ';').headD ""))
      "application/x-www-form-urlencoded" = true ∧
    pinResult.isTarget "/__axonyx/action?name=Save&path=/posts" = true := by
  decide +kernel

theorem pin_not_offered : ¬ Offered pinResult pinPage "pin" := by
  obtain ⟨unnamed, password⟩ := pin_read.1
  rw [Offered, pinPage, offers_element]
  rintro (⟨_, control⟩ | ⟨child, member, inner⟩)
  · rcases control.takes with ⟨isInput, _⟩ | area | ⟨isSelect, _⟩
    · exact absurd isInput (by decide)
    · exact absurd area (by decide)
    · exact absurd isSelect (by decide)
  · rcases List.mem_cons.mp member with rfl | later
    · rcases offers_element.mp inner with ⟨_, control⟩ | ⟨_, none, _⟩
      · exact unnamed control.named
      · cases none
    · rw [List.mem_singleton.mp later] at inner
      rcases offers_element.mp inner with ⟨_, control⟩ | ⟨_, none, _⟩
      · have kind := control.kind
        rw [password] at kind
        exact kind List.mem_cons_self
      · cases none

theorem replayBody_some {result : AxFormResult} {request : ActionRequest} {contentType body : String}
    (post : request.method = "POST") (target : result.isTarget request.target = true)
    (header : request.headerValue "content-type" = some contentType)
    (media : Text.eqIgnoreAsciiCase (Text.trim ((Text.split contentType ';').headD ""))
      "application/x-www-form-urlencoded" = true)
    (fits : request.body.length ≤ maxReplayBodyBytes) (single : request.multipart = none)
    (read : Wire.fromUtf8 request.body = some body) : result.replayBody request = some body := by
  have short : ¬ maxReplayBodyBytes < request.body.length := Nat.not_lt.mpr fits
  simp only [AxFormResult.replayBody, post, target, header, single, media, short, ne_eq, not_true_eq_false,
    decide_false, Bool.not_true, Bool.or_false, Bool.false_eq_true, if_false, Option.getD_some,
    Option.isSome_none, read]

theorem pinRequest_accepted (pin : String) (short : ("title=A&pin=" ++ pin).utf8ByteSize ≤ maxReplayBodyBytes) :
    pinResult.replayBody (pinRequest pin) = some ("title=A&pin=" ++ pin) := by
  obtain ⟨header, media, target⟩ := pin_read.2
  have fits : (pinRequest pin).body.length ≤ maxReplayBodyBytes := by
    rw [pinRequest, Wire.utf8_length]
    exact short
  refine replayBody_some rfl target ?_ media fits rfl (Wire.fromUtf8_utf8 _)
  rw [AxHttpRequest.headerValue]
  exact congrArg (Option.map Prod.snd) header

theorem replay_private_pin :
    (pinResult.withRequestValues (pinRequest "1")).applyToNode pinPage =
      (pinResult.withRequestValues (pinRequest "2")).applyToNode pinPage := by
  have fields (pin : String) (digit : pin = "1" ∨ pin = "2") :
      AxHttpRequest.parseUrlencodedFields ("title=A&pin=" ++ pin) = [("title", "A"), ("pin", pin)] := by
    rcases digit with rfl | rfl <;> decide +kernel
  have validated : AxFormResult.validation "Save" "/posts" (.object [("title", .string "Required")]) =
      some pinResult := by decide +kernel
  have accepted := pinRequest_accepted "1" (by decide +kernel)
  have accepted' := pinRequest_accepted "2" (by decide +kernel)
  refine (replay_private pinPage validated accepted accepted' ?_).1
  rw [fields "1" (.inl rfl), fields "2" (.inr rfl)]
  exact .cons ⟨rfl, fun _ => rfl⟩ (.cons ⟨rfl, fun offered => absurd offered pin_not_offered⟩ .nil)

end TwoRuns
end Axonyx.Runtime.Form

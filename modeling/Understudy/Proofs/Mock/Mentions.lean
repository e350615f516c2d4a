import Understudy.Mock
import Understudy.Proofs.Text.Literal

/-! # What the body of a mock mentions

The body of a mock is one chain of calls. Outside quotes it shows words of its own and the
expressions for the values, with the modifiers and lengths that rules give. An expression may
mention any parameter of the function, not only the one that it is for.
-/

namespace Understudy

open Text (Shows)

namespace Link

/-- The expressions of a link. -/
def expressions : Link → List String
  | onObject receiver => [receiver]
  | scalar _ _ value | object _ _ value | output _ value | copiedOutput _ _ value
  | copiedOutputReturning _ _ value | returning _ value => [value]
  | memoryBuffer _ value length => [value, length]
  | outputReturning _ value size => [value, size]
  | returned _ => []

/-- What a link shows in quotes. -/
def quotedTexts : Link → List String
  | onObject _ | returned _ | returning .. => []
  | scalar _ name _ | memoryBuffer name .. | output name _ | outputReturning name .. => [name]
  | object tag name _ | copiedOutput tag name _ | copiedOutputReturning tag name _ => [tag, name]

def methodName : Link → String
  | onObject _ => "onObject"
  | scalar s _ _ => s.parameterMethod
  | memoryBuffer .. => "withMemoryBufferParameter"
  | object .. => "withParameterOfType"
  | output .. => "withOutputParameter"
  | copiedOutput .. => "withOutputParameterOfType"
  | outputReturning .. => "withOutputParameterReturning"
  | copiedOutputReturning .. => "withOutputParameterOfTypeReturning"
  | returned s => s.returnMethod
  | returning .. => "andReturnValue"

/-- The start of the cast around a value. -/
def cast? : Link → Option String
  | memoryBuffer .. => some "reinterpret_cast<const unsigned char *>("
  | returning s _ => some ("static_cast<" ++ s.valueType ++ ">(")
  | _ => none

/-- The words that a link shows whatever it passes. -/
def ownWords (link : Link) : List (List Char) :=
  link.methodName.toList :: link.cast?.elim [] fun cast => Text.identifiers cast.toList

/-- The identifiers that a link shows outside quotes. -/
def identifiers (link : Link) : List (List Char) :=
  link.ownWords ++ link.expressions.flatMap fun e => Text.identifiers e.toList

/-- No expression opens a literal without closing it, and what is quoted ends no literal. -/
structure ClosesLiterals (link : Link) : Prop where
  expressions : ∀ e ∈ link.expressions, Text.ClosesLiterals e.toList
  quoted : ∀ text ∈ link.quotedTexts, '"' ∉ text.toList ∧ '\\' ∉ text.toList

theorem shows_intercalate {texts : List String}
    (h : ∀ text ∈ texts, Text.ClosesLiterals text.toList) :
    Shows (String.intercalate ", " texts).toList
      (texts.flatMap fun text => Text.identifiers text.toList) := by
  have hcomma : Shows ", ".toList [] := ⟨by decide, by decide⟩
  rw [String.toList_intercalate]
  induction texts with
  | nil => exact ⟨by decide, by decide⟩
  | cons first texts ih =>
      obtain ⟨hfirst, htexts⟩ := List.forall_mem_cons.mp h
      have hshows := Text.shows_identifiers hfirst
      cases texts with
      | nil => simpa using hshows
      | cons second texts =>
          have hrest := hcomma.append (ih htexts) (.inl (by rintro _ ⟨⟩; decide))
          rw [List.map_cons, List.map_cons, List.intercalate_cons_cons, List.append_assoc]
          exact hshows.append hrest (.inr (by rintro _ ⟨⟩; decide))

theorem shows_method {name : String} {arguments : List String}
    (hname : Text.IsIdentifier name.toList)
    (harguments : ∀ text ∈ arguments, Text.ClosesLiterals text.toList) :
    Shows (method name arguments).toList
      (name.toList :: arguments.flatMap fun text => Text.identifiers text.toList) := by
  have hdot : Shows ['.'] [] := ⟨by decide, by decide⟩
  have hopen : Shows ['('] [] := ⟨by decide, by decide⟩
  have hclose : Shows [')'] [] := ⟨by decide, by decide⟩
  have hlist := (shows_intercalate harguments).append hclose (.inr (by decide))
  have hrest := hopen.append hlist (.inl (by rintro _ ⟨⟩; decide))
  have hcall := (Text.shows_word hname).append hrest (.inr (by rintro _ ⟨⟩; decide))
  simpa [method] using hdot.append hcall (.inl (by rintro _ ⟨⟩; decide))

theorem shows_quoted {text : String} (h : '"' ∉ text.toList ∧ '\\' ∉ text.toList) :
    Shows (quoted text).toList [] := by
  have htext : (quoted text).toList = '"' :: (text.toList ++ ['"']) := by simp [quoted]
  rw [htext]
  exact Text.shows_quoted h.1 h.2

/-- What is quoted is passed over. -/
theorem shows_method_quoted {name : String} (texts expressions : List String)
    (hname : Text.IsIdentifier name.toList)
    (hquoted : ∀ text ∈ texts, '"' ∉ text.toList ∧ '\\' ∉ text.toList)
    (hexpressions : ∀ e ∈ expressions, Text.ClosesLiterals e.toList) :
    Shows (method name (texts.map quoted ++ expressions)).toList
      ([name.toList] ++ expressions.flatMap fun e => Text.identifiers e.toList) := by
  have hnone : (texts.map quoted).flatMap (fun text => Text.identifiers text.toList) = [] := by
    rw [List.flatMap_map, List.flatMap_eq_nil_iff]
    exact fun text htext => (shows_quoted (hquoted text htext)).identifiers
  have hmethod : Shows (method name (texts.map quoted ++ expressions)).toList _ :=
    shows_method hname (List.forall_mem_append.mpr ⟨List.forall_mem_map.mpr fun text htext =>
      (shows_quoted (hquoted text htext)).closes, hexpressions⟩)
  rwa [List.flatMap_append, hnone, List.nil_append] at hmethod

/-- A cast shows its type and the value. -/
theorem shows_cast {cast value : String} {names : List (List Char)}
    (hcast : Shows cast.toList names) (hstarts : Text.StartsWord cast.toList)
    (hvalue : Text.ClosesLiterals value.toList) :
    Shows (cast ++ value ++ ")").toList (names ++ Text.identifiers value.toList) := by
  have hclose : Shows [')'] [] := ⟨by decide, by decide⟩
  have h := hcast.append ((Text.shows_identifiers hvalue).append hclose (.inr (by decide)))
    (.inl hstarts)
  simpa using h

theorem isIdentifier_methodName (link : Link) : Text.IsIdentifier link.methodName.toList := by
  have hparameter (s : Scalar) : Text.IsIdentifier s.parameterMethod.toList := by
    cases s <;> decide
  have hreturn (s : Scalar) : Text.IsIdentifier s.returnMethod.toList := by cases s <;> decide
  cases link with
  | scalar s => exact hparameter s
  | returned s => exact hreturn s
  | onObject => exact (by decide : Text.IsIdentifier "onObject".toList)
  | memoryBuffer => exact (by decide : Text.IsIdentifier "withMemoryBufferParameter".toList)
  | object => exact (by decide : Text.IsIdentifier "withParameterOfType".toList)
  | output => exact (by decide : Text.IsIdentifier "withOutputParameter".toList)
  | copiedOutput => exact (by decide : Text.IsIdentifier "withOutputParameterOfType".toList)
  | outputReturning => exact (by decide : Text.IsIdentifier "withOutputParameterReturning".toList)
  | copiedOutputReturning =>
      exact (by decide : Text.IsIdentifier "withOutputParameterOfTypeReturning".toList)
  | returning => exact (by decide : Text.IsIdentifier "andReturnValue".toList)

/-- Without a cast, what is quoted comes first and the expressions follow. -/
theorem render_of_no_cast {link : Link} (h : link.cast? = none) :
    link.render = method link.methodName (link.quotedTexts.map quoted ++ link.expressions) := by
  cases link with
  | memoryBuffer | returning => cases h
  | _ => rfl

theorem shows_render {link : Link} (h : link.ClosesLiterals) :
    Shows link.render.toList link.identifiers := by
  obtain ⟨hexpressions, hquoted⟩ := h
  by_cases hcast : link.cast? = none
  · rw [render_of_no_cast hcast, identifiers, ownWords, hcast]
    exact shows_method_quoted _ _ link.isIdentifier_methodName hquoted hexpressions
  cases link with
  | memoryBuffer name value length =>
      have hname := shows_quoted (hquoted name List.mem_cons_self)
      have hcast : Shows "reinterpret_cast<const unsigned char *>(".toList _ := ⟨by decide, rfl⟩
      have hvalue := shows_cast hcast (by rintro _ ⟨⟩; decide)
        (hexpressions value List.mem_cons_self)
      have hlength := hexpressions length (List.mem_cons_of_mem _ List.mem_cons_self)
      have hmethod := shows_method (memoryBuffer name value length).isIdentifier_methodName
        (List.forall_mem_cons.mpr ⟨hname.closes, List.forall_mem_cons.mpr
          ⟨hvalue.closes, List.forall_mem_singleton.mpr hlength⟩⟩)
      rw [List.flatMap_cons, List.flatMap_cons, hname.identifiers, hvalue.identifiers,
        List.nil_append, List.append_assoc] at hmethod
      exact hmethod
  | returning s value =>
      have hcloses : Text.ClosesLiterals ("static_cast<" ++ s.valueType ++ ">(").toList := by
        cases s <;> decide
      have hstarts : Text.StartsWord ("static_cast<" ++ s.valueType ++ ">(").toList := by
        cases s <;> rintro _ ⟨⟩ <;> decide
      have hvalue := shows_cast ⟨hcloses, rfl⟩ hstarts (hexpressions value List.mem_cons_self)
      have hmethod := shows_method (returning s value).isIdentifier_methodName
        (List.forall_mem_singleton.mpr hvalue.closes)
      rw [List.flatMap_cons, hvalue.identifiers, List.append_assoc] at hmethod
      exact hmethod
  | _ => exact absurd rfl hcast

theorem mem_flatMap_identifiers {links : List Link} {name : List Char} :
    name ∈ links.flatMap identifiers ↔ name ∈ links.flatMap ownWords ∨
      ∃ e ∈ links.flatMap expressions, name ∈ Text.identifiers e.toList := by
  induction links with
  | nil => simp
  | cons link links ih =>
      simp only [List.flatMap_cons, List.mem_append, ih, identifiers, or_and_right, exists_or,
        List.mem_flatMap]
      grind

theorem endsWord_method (name : String) (arguments : List String) :
    Text.EndsWord (method name arguments).toList := by
  have htext : (method name arguments).toList =
      '.' :: (name ++ "(" ++ String.intercalate ", " arguments ++ ")").toList := by simp [method]
  rw [htext]
  rintro _ ⟨⟩
  decide

theorem startsWord_method (name : String) (arguments : List String) :
    Text.StartsWord (method name arguments).toList := by
  intro c hc
  rw [method, String.toList_append, List.getLast?_append] at hc
  cases hc
  decide

theorem exists_render_eq_method (link : Link) :
    ∃ name arguments, link.render = method name arguments := by
  cases link <;> exact ⟨_, _, rfl⟩

end Link

/-- Calls one after the other show what each of them shows. -/
theorem shows_join (texts : List String) (hmethod : ∀ text ∈ texts, ∃ name arguments,
      text = Link.method name arguments)
    (hcloses : ∀ text ∈ texts, Text.ClosesLiterals text.toList) :
    Shows (String.join texts).toList (texts.flatMap fun text => Text.identifiers text.toList) ∧
      Text.StartsWord (String.join texts).toList ∧ Text.EndsWord (String.join texts).toList := by
  rw [String.toList_join]
  induction texts with
  | nil => exact ⟨⟨by decide, by decide⟩, by rintro _ ⟨⟩, by decide⟩
  | cons text texts ih =>
      obtain ⟨⟨name, arguments, rfl⟩, hmethods⟩ := List.forall_mem_cons.mp hmethod
      obtain ⟨hfirst, hrest⟩ := List.forall_mem_cons.mp hcloses
      obtain ⟨hshows, hstarts, hends⟩ := ih hmethods hrest
      exact ⟨(Text.shows_identifiers hfirst).append hshows (.inr hends),
        (Link.startsWord_method name arguments).append hstarts,
        (Link.endsWord_method name arguments).append hends⟩

namespace Analysis

variable {a : Analysis}

/-- The expressions in the body: the start of the chain under its modifier, and those of the
links. -/
def expressions (a : Analysis) : List String :=
  a.resultModifier.apply "mock()" :: a.mockCall.links.flatMap Link.expressions

/-- The words that the body shows whatever the expressions are. -/
def ownWords (a : Analysis) : List (List Char) :=
  (if a.result?.isSome then ["return".toList] else []) ++
    "actualCall".toList :: a.mockCall.links.flatMap Link.ownWords

/-- No expression opens a literal without closing it, and what is quoted ends no literal. -/
structure ClosesLiterals (a : Analysis) : Prop where
  front : Text.ClosesLiterals a.resultModifier.front.toList
  back : Text.ClosesLiterals a.resultModifier.back.toList
  function : '"' ∉ a.declaration.qualifiedName.toList ∧ '\\' ∉ a.declaration.qualifiedName.toList
  links : ∀ link ∈ a.mockCall.links, link.ClosesLiterals

/-- The body shows a name as an identifier, outside literals. -/
def Mentions (a : Analysis) (name : String) : Prop :=
  name.toList ∈ Text.identifiers a.mockStatement.toList

instance (a : Analysis) (name : String) : Decidable (a.Mentions name) :=
  inferInstanceAs (Decidable (name.toList ∈ Text.identifiers a.mockStatement.toList))

/-- The calls of the chain after its `mock()`. -/
def calls (a : Analysis) : List String :=
  Link.method "actualCall" [Link.quoted a.declaration.qualifiedName] ::
    a.mockCall.links.map Link.render

theorem mockCall_render (a : Analysis) : a.mockCall.render = "mock()" ++ String.join a.calls := by
  rw [Call.render, Opening.render_eq, calls, String.join_cons, Link.method_eq, String.append_assoc]
  rfl

theorem mockStatement_eq_calls (a : Analysis) : a.mockStatement =
    (if a.result?.isSome then "return " else "") ++ (a.resultModifier.front ++ "mock()" ++
      String.join a.calls ++ a.resultModifier.back) := by
  rw [mockStatement_eq, mockCall_render, Modifier.apply]
  simp only [String.append_assoc]

theorem shows_calls (h : a.ClosesLiterals) : Shows (String.join a.calls).toList
      ("actualCall".toList :: a.mockCall.links.flatMap Link.identifiers) ∧
    Text.StartsWord (String.join a.calls).toList ∧ Text.EndsWord (String.join a.calls).toList := by
  have hactual : Shows (Link.method "actualCall" [Link.quoted a.declaration.qualifiedName]).toList
      ["actualCall".toList] :=
    Link.shows_method_quoted [a.declaration.qualifiedName] [] (by decide)
      (List.forall_mem_singleton.mpr h.function) (List.forall_mem_nil _)
  have hlinks : ((a.mockCall.links.map Link.render).flatMap fun text =>
      Text.identifiers text.toList) = a.mockCall.links.flatMap Link.identifiers := by
    rw [List.flatMap_map]
    exact List.flatMap_congr fun link hlink => (Link.shows_render (h.links link hlink)).identifiers
  have hjoin := shows_join a.calls
    (List.forall_mem_cons.mpr ⟨⟨_, _, rfl⟩, List.forall_mem_map.mpr fun link _ =>
      link.exists_render_eq_method⟩)
    (List.forall_mem_cons.mpr ⟨hactual.closes, List.forall_mem_map.mpr fun link hlink =>
      (Link.shows_render (h.links link hlink)).closes⟩)
  rwa [calls, List.flatMap_cons, hlinks, hactual.identifiers] at hjoin

/-- The body mentions what its words and its expressions say. -/
theorem mentions_iff (h : a.ClosesLiterals) (name : String) : a.Mentions name ↔
    name.toList ∈ a.ownWords ∨ ∃ e ∈ a.expressions, name.toList ∈ Text.identifiers e.toList := by
  have hreturn : Shows (if a.result?.isSome then "return " else "").toList
      (if a.result?.isSome then ["return".toList] else []) := by
    cases a.result?.isSome <;> exact ⟨by decide, by decide⟩
  have hspace : Text.StartsWord (if a.result?.isSome then "return " else "").toList := by
    cases a.result?.isSome
    · rintro _ ⟨⟩
    · rintro _ ⟨⟩
      decide
  have hmock : Text.StartsWord (a.resultModifier.front ++ "mock()").toList := by
    intro c hc
    rw [String.toList_append, List.getLast?_append] at hc
    cases hc
    decide
  have hstart : Shows (a.resultModifier.front ++ "mock()").toList _ := Text.shows_identifiers
    (by rw [String.toList_append]; exact h.front.append (by decide))
  have hback := Text.shows_identifiers h.back
  obtain ⟨hcalls, hstarts, hends⟩ := shows_calls h
  have hstatement := hreturn.append ((hstart.append hcalls (.inr hends)).append hback
    (.inl (hmock.append hstarts))) (.inl hspace)
  have happly := hstart.append hback (.inl hmock)
  have htext := congrArg String.toList a.mockStatement_eq_calls
  simp only [String.toList_append, List.append_assoc] at hstatement happly htext
  rw [Mentions, htext, hstatement.identifiers, ownWords, expressions, List.exists_mem_cons_iff,
    Modifier.apply, String.toList_append, String.toList_append, List.append_assoc,
    happly.identifiers]
  simp only [List.mem_append, List.mem_cons, Link.mem_flatMap_identifiers, or_assoc, or_left_comm]
  rw [or_comm (b := name.toList ∈ Text.identifiers a.resultModifier.back.toList)]

end Analysis

end Understudy
